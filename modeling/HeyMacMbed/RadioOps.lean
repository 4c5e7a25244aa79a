import HeyMacMbed.Atomicity
import HeyMacMbed.RadioCalls

/-!
# The driver, one access at a time

A call of the driver is not done in one go: it reads and stores its own fields one by
one and every SPI transfer takes its time, with interrupts in between. Here each call is
the program of these accesses, in the order of the source. Left to itself the
program does what the call does.
-/

open Bits Octets Fields Threads

/-- What the driver does in one go: an access to one of its fields, one transfer, the
reset pulse, the look at the constant table with which `set` begins. `writeMode` is the
transfer that commands an op mode. -/
inductive RadioOp where
  | stngsInfo (fld : Fld)
  | getStng (fld : Fld)
  | putStng (fld : Fld) (v : Octet)
  | getApplied (fld : Fld)
  | putApplied (fld : Fld) (v : Octet)
  | getFreq
  | putFreq (freq : BitVec 32)
  | getFreqApplied
  | putFreqApplied (freq : BitVec 32)
  | getRng
  | putRng (rng : BitVec 32)
  | read (addr : RegAddr)
  | write (addr : RegAddr) (data : List Octet)
  | writeMode (opMode : OpMode) (reg : Octet)
  | writeFifo (data : Mem) (sz : Nat)
  | pinReset

namespace RadioOp

@[reducible] def Res : RadioOp → Type
  | .stngsInfo _ => StngsInfo
  | .getStng _ | .getApplied _ | .read _ => Octet
  | .getFreq | .getFreqApplied | .getRng => BitVec 32
  | _ => Unit

def exec (t : Target) : (o : RadioOp) → SX127xRadio → o.Res × SX127xRadio
  | .stngsInfo fld, r => (stngsInfoLut fld, r)
  | .getStng fld, r => (r.rdoStngs fld, r)
  | .putStng fld v, r => ((), r.putStng fld v)
  | .getApplied fld, r => (r.rdoStngsApplied fld, r)
  | .putApplied fld v, r =>
    ((), { r with rdoStngsApplied := Function.update r.rdoStngsApplied fld v })
  | .getFreq, r => (r.rdoStngsFreq, r)
  | .putFreq freq, r => ((), { r with rdoStngsFreq := freq })
  | .getFreqApplied, r => (r.rdoStngsFreqApplied, r)
  | .putFreqApplied freq, r => ((), { r with rdoStngsFreqApplied := freq })
  | .getRng, r => (r.rngRaw, r)
  | .putRng rng, r => ((), { r with rngRaw := rng })
  | .read addr, r => r.readReg addr
  | .write addr data, r => ((), r.write addr data)
  | .writeMode _ reg, r => ((), r.write regRdoOpmode [reg])
  | .writeFifo data sz, r => ((), (r.writeFifo data sz).2)
  | .pinReset, r => ((), r.pinReset t)

end RadioOp

abbrev RadioProg (α : Type) := Prog RadioOp.Res α

namespace RadioProg

abbrev op (o : RadioOp) : RadioProg o.Res := Prog.perform o

abbrev skip : RadioProg Unit := pure ()

/-- `_reset_rdo_stngs()`. -/
def resetRdoStngs : List Fld → RadioProg Unit
  | [] => skip
  | fld :: flds => do
    op (.putStng fld ((stngsInfoLut fld).resetVal.setWidth 8))
    op (.putApplied fld ((stngsInfoLut fld).resetVal.setWidth 8))
    resetRdoStngs flds

/-- `_validate_chip()`. -/
def validateChip : RadioProg Unit := do
  let _ ← op (.read regRdoChipVrsn)
  skip

def readOpMode : RadioProg Octet := do
  let reg ← op (.read regRdoOpmode)
  pure (reg &&& 0x07)

variable (t : Target)

def set (fld : Fld) (val : BitVec 32) : RadioProg Unit := do
  let info ← op (.stngsInfo fld)
  if info.valMin ≤ val ∧ val ≤ info.valMax then
    match fld with
    | .rdoFreqHz => op (.putFreq val)
    | .loraRxTmout => do
      op (.putStng .loraRxTmout ((val >>> 8 &&& 0xFF).setWidth 8))
      op (.putStng .loraRxTmout2 ((val >>> 0 &&& 0xFF).setWidth 8))
    | .loraPreambleLen => do
      op (.putStng .loraPreambleLen ((val >>> 8 &&& 0xFF).setWidth 8))
      op (.putStng .loraPreambleLen2 ((val >>> 0 &&& 0xFF).setWidth 8))
    | fld => op (.putStng fld ((val &&& t.bitFld 0 info.bitCnt).setWidth 8))
  else skip

/-- The two octets are compared. -/
def stngOutstanding (fld : Fld) : RadioProg Bool := do
  let stng ← op (.getStng fld)
  let applied ← op (.getApplied fld)
  pure (stng != applied)

def updtRng : RadioProg Unit := do
  let reg ← op (.read regLoraRssiWb)
  let rngRaw ← op .getRng
  op (.putRng ((rngRaw <<< 1) ||| (reg &&& 1).setWidth 32))

def writeFifoPtr (offset : Octet) : RadioProg Unit :=
  op (.write regLoraFifoAddrPtr [offset, offset, offset])

def writeLoraIrqMask (disableThese enableThese : Octet) : RadioProg Unit := do
  let reg ← op (.read regLoraIrqMask)
  op (.write regLoraIrqMask [(reg ||| disableThese) &&& ~~~enableThese])

def writeLoraIrqFlags (clearThese : Octet) : RadioProg Unit :=
  op (.write regLoraIrqFlags [clearThese])

def writeOpMode (opMode : OpMode) : RadioProg Unit := do
  let reg ← op (.read regRdoOpmode)
  op (.writeMode opMode ((reg &&& ~~~0x7) ||| (0x7 &&& opMode.code)))

/-- `freq`, `auto_if_on` and `reg_if_freq2` of `write_stngs`. -/
def errata (forRx : Bool) (freq : BitVec 32) : RadioProg (BitVec 32 × Bool × Octet) :=
  if forRx then do
    let mode ← op (.getStng .rdoLoraMode)
    if mode ≠ 0 then do
      let bw ← op (.getStng .loraBw)
      if bw ≥ stngLoraBw500k then pure (freq, true, 0x20)
      else pure (freq + (SX127xRadio.freqInfo bw).1, false, (SX127xRadio.freqInfo bw).2)
    else pure (freq, false, 0x20)
  else pure (freq, false, 0x20)

/-- The second comparison is only made if the first finds no difference. -/
def errataOutstanding : RadioProg Bool := do
  let mode ← stngOutstanding .rdoLoraMode
  if mode then pure true else stngOutstanding .loraBw

def writeErrata (autoIfOn : Bool) (regIfFreq2 : Octet) : RadioProg Unit := do
  op (.write regLoraIfFreq2 [regIfFreq2])
  let reg ← op (.read regLoraDtctOptmz)
  op (.write regLoraDtctOptmz [(reg &&& ~~~0x80) ||| (if autoIfOn then 0x80 else 0)])

def writeFreq (freq : BitVec 32) : RadioProg Unit := do
  let applied ← op .getFreqApplied
  if freq ≠ applied then do
    op (.write regRdoFreqHz [(freq >>> 16 &&& 0xFF).setWidth 8,
      (freq >>> 8 &&& 0xFF).setWidth 8, (freq >>> 0 &&& 0xFF).setWidth 8])
    op (.putFreqApplied freq)
  else skip

/-- The body of `write_stngs`'s loop. -/
def writeFld (fld : Fld) : RadioProg Unit := do
  let outstanding ← stngOutstanding fld
  if outstanding then do
    let reg ← op (.read (stngsInfoLut fld).regStart)
    let stng ← op (.getStng fld)
    let bitf : Octet :=
      (t.bitFld (stngsInfoLut fld).bitStart (stngsInfoLut fld).bitCnt).setWidth 8
    op (.write (stngsInfoLut fld).regStart
      [(reg &&& ~~~bitf) ||| (bitf &&& (stng <<< (stngsInfoLut fld).bitStart))])
    let stng ← op (.getStng fld)
    op (.putApplied fld stng)
  else skip

def writeFlds : List Fld → RadioProg Unit
  | [] => skip
  | fld :: flds => do
    writeFld t fld
    writeFlds flds

def writeStngs (forRx : Bool) : RadioProg Unit := do
  let freq ← op .getFreq
  let (freq, autoIfOn, regIfFreq2) ← errata forRx freq
  let changed ← errataOutstanding
  (if changed then writeErrata autoIfOn regIfFreq2 else skip)
  writeFreq freq
  writeFlds t Fld.all

def writeSleepStngs : RadioProg Unit := do
  let outstanding ← stngOutstanding .rdoLoraMode
  if outstanding then do
    let reg ← op (.read regRdoOpmode)
    let stng ← op (.getStng .rdoLoraMode)
    op (.write regRdoOpmode [if stng ≠ 0 then reg ||| 0x80 else reg &&& ~~~0x80])
    let stng ← op (.getStng .rdoLoraMode)
    op (.putApplied .rdoLoraMode stng)
  else skip

/-- `init_radio`'s last line. -/
def noteLoraMode : RadioProg Unit := op (.putApplied .rdoLoraMode 1)

def initRadio : RadioProg Unit := do
  op .pinReset
  resetRdoStngs Fld.all
  validateChip
  writeOpMode .sleep
  set t .rdoLoraMode 1
  writeSleepStngs
  writeOpMode .stby
  noteLoraMode

end RadioProg

/-- The call's accesses. -/
def RadioCall.prog (t : Target) : RadioCall → RadioProg Unit
  | .initRadio => RadioProg.initRadio t
  | .readOpMode => do
    let _ ← RadioProg.readOpMode
    pure ()
  | .set fld val => RadioProg.set t fld val
  | .updtRng => RadioProg.updtRng
  | .writeFifo data sz => RadioProg.op (.writeFifo data sz)
  | .writeFifoPtr offset => RadioProg.writeFifoPtr offset
  | .writeLoraIrqMask d e => RadioProg.writeLoraIrqMask d e
  | .writeLoraIrqFlags c => RadioProg.writeLoraIrqFlags c
  | .writeOpMode m => RadioProg.writeOpMode m
  | .writeStngs forRx => RadioProg.writeStngs t forRx
  | .writeSleepStngs => RadioProg.writeSleepStngs

/-! Left to itself. -/

section Alone
variable (t : Target)

/-- What a program does to the driver when nothing interferes. -/
def RadioProg.runs {α : Type} (p : RadioProg α) (r : SX127xRadio) : α × SX127xRadio :=
  p.interp (RadioOp.exec t) r

variable {t} {α β : Type} (r : SX127xRadio)

theorem runs_bind (p : RadioProg α) (g : α → RadioProg β) :
    (p >>= g).runs t r = (g (p.runs t r).1).runs t (p.runs t r).2 :=
  interp_bind (RadioOp.exec t) p g r

/-- A first access. -/
theorem runs_op (o : RadioOp) (g : o.Res → RadioProg β) :
    (RadioProg.op o >>= g).runs t r = (g (o.exec t r).1).runs t (o.exec t r).2 := rfl

theorem runs_ite (c : Prop) [Decidable c] (p q : RadioProg α) :
    (if c then p else q).runs t r = if c then p.runs t r else q.runs t r := by
  split <;> rfl

theorem runs_set (fld : Fld) (val : BitVec 32) :
    (RadioProg.set t fld val).runs t r = ((), r.set t fld val) := by
  rw [RadioProg.set, runs_op, runs_ite]
  unfold SX127xRadio.set
  by_cases hin : SX127xRadio.InBounds fld val
  · refine (if_pos hin).trans (Eq.trans ?_ (congrArg (Prod.mk ()) (if_pos hin).symm))
    cases fld <;> rfl
  · exact (if_neg hin).trans (congrArg (Prod.mk ()) (if_neg hin).symm)

theorem runs_stngOutstanding (fld : Fld) :
    (RadioProg.stngOutstanding fld).runs t r = (r.rdoStngs fld != r.rdoStngsApplied fld, r) := rfl

theorem runs_errata (forRx : Bool) :
    (RadioProg.errata forRx r.rdoStngsFreq).runs t r = (r.errata forRx, r) := by
  cases forRx with
  | false => rfl
  | true =>
    rw [RadioProg.errata, if_pos rfl, runs_op, runs_ite, SX127xRadio.errata]
    by_cases hmode : r.rdoStngs .rdoLoraMode = 0
    · refine (if_neg (not_not.mpr hmode)).trans ?_
      rw [if_neg fun h => h.2 hmode]
      rfl
    · have hboth : true = true ∧ r.rdoStngs .rdoLoraMode ≠ 0 := ⟨rfl, hmode⟩
      refine (if_pos hmode).trans ?_
      rw [if_pos hboth, runs_op, runs_ite]
      by_cases hbw : r.rdoStngs .loraBw ≥ stngLoraBw500k
      · rw [if_pos hbw]
        exact if_pos hbw
      · rw [if_neg hbw]
        exact if_neg hbw

theorem runs_errataOutstanding :
    RadioProg.errataOutstanding.runs t r = (decide r.ErrataOutstanding, r) := by
  rw [RadioProg.errataOutstanding, runs_bind, runs_ite, runs_stngOutstanding,
    runs_stngOutstanding]
  by_cases hmode : r.rdoStngs .rdoLoraMode = r.rdoStngsApplied .rdoLoraMode
  · simp [SX127xRadio.ErrataOutstanding, hmode, bne, BEq.beq]
  · simp only [SX127xRadio.ErrataOutstanding, hmode, bne_iff_ne, ne_eq, not_false_eq_true,
      if_true, true_or, decide_true]
    rfl

theorem runs_writeFreq (freq : BitVec 32) :
    (RadioProg.writeFreq freq).runs t r = ((), r.writeFreq freq) := by
  rw [RadioProg.writeFreq, runs_op, runs_ite, SX127xRadio.writeFreq]
  by_cases hfreq : freq ≠ r.rdoStngsFreqApplied
  · rw [if_pos hfreq]
    exact if_pos hfreq
  · rw [if_neg hfreq]
    exact if_neg hfreq

/-- What is done only about an outstanding setting. -/
theorem runs_outstanding {fld : Fld} {p : RadioProg Unit} {r' : SX127xRadio}
    (h : p.runs t r = ((), r')) :
    (RadioProg.stngOutstanding fld >>= fun b => if b then p else RadioProg.skip).runs t r =
      ((), if r.rdoStngs fld ≠ r.rdoStngsApplied fld then r' else r) := by
  rw [runs_bind, runs_stngOutstanding, runs_ite]
  by_cases hout : r.rdoStngs fld ≠ r.rdoStngsApplied fld
  · rw [if_pos hout, if_pos (bne_iff_ne.mpr hout)]
    exact h
  · rw [if_neg hout, if_neg fun hb => hout (bne_iff_ne.mp hb)]
    rfl

theorem runs_writeFld (fld : Fld) :
    (RadioProg.writeFld t fld).runs t r = ((), r.writeFld t fld) := runs_outstanding r rfl

theorem runs_writeSleepStngs :
    RadioProg.writeSleepStngs.runs t r = ((), r.writeSleepStngs) := runs_outstanding r rfl

theorem runs_writeFlds (flds : List Fld) :
    (RadioProg.writeFlds t flds).runs t r = ((), flds.foldl (SX127xRadio.writeFld t) r) := by
  induction flds generalizing r with
  | nil => rfl
  | cons fld flds ih => rw [RadioProg.writeFlds, runs_bind, runs_writeFld, ih, List.foldl_cons]

theorem runs_writeStngs (forRx : Bool) :
    (RadioProg.writeStngs t forRx).runs t r = ((), r.writeStngs t forRx) := by
  have herrata : (RadioProg.errata forRx (RadioOp.getFreq.exec t r).1).runs t
      (RadioOp.getFreq.exec t r).2 = (r.errata forRx, r) := runs_errata r forRx
  rw [RadioProg.writeStngs, runs_op, runs_bind, herrata]
  simp only [runs_bind, runs_errataOutstanding, runs_ite, decide_eq_true_eq, runs_writeFreq,
    runs_writeFlds, SX127xRadio.writeStngs]
  by_cases hout : r.ErrataOutstanding
  · rw [if_pos hout, if_pos hout]
    rfl
  · rw [if_neg hout, if_neg hout]
    rfl

/-- Storing field by field leaves the other fields to the stores still to come. -/
theorem runs_resetRdoStngs (flds : List Fld) :
    (RadioProg.resetRdoStngs flds).runs t r = ((), { r with
      rdoStngs := fun fld =>
        if fld ∈ flds then (stngsInfoLut fld).resetVal.setWidth 8 else r.rdoStngs fld
      rdoStngsApplied := fun fld =>
        if fld ∈ flds then (stngsInfoLut fld).resetVal.setWidth 8
        else r.rdoStngsApplied fld }) := by
  induction flds generalizing r with
  | nil =>
    simp only [List.not_mem_nil, if_false]
    rfl
  | cons g flds ih =>
    have hstore : ∀ s : Fld → Octet, (fun fld => if fld ∈ flds then
        (stngsInfoLut fld).resetVal.setWidth 8
        else Function.update s g ((stngsInfoLut g).resetVal.setWidth 8) fld) =
        fun fld => if fld ∈ g :: flds then (stngsInfoLut fld).resetVal.setWidth 8 else s fld := by
      intro s
      funext fld
      by_cases hmem : fld ∈ flds
      · simp [hmem]
      · by_cases hg : fld = g
        · subst hg
          simp
        · simp [hmem, hg]
    rw [RadioProg.resetRdoStngs, runs_op, runs_op, ih, ← hstore, ← hstore]
    rfl

theorem runs_resetAll :
    (RadioProg.resetRdoStngs Fld.all).runs t r = ((), r.resetRdoStngs) := by
  simp only [runs_resetRdoStngs, Fld.mem_all, if_true]
  rfl

theorem runs_initRadio : (RadioProg.initRadio t).runs t r = ((), r.initRadio t) := by
  have hop : ∀ (m : OpMode) (r : SX127xRadio),
      (RadioProg.writeOpMode m).runs t r = ((), r.writeOpMode m) := fun _ _ => rfl
  have hchip : ∀ r : SX127xRadio, RadioProg.validateChip.runs t r = ((), r.validateChip) :=
    fun _ => rfl
  rw [RadioProg.initRadio, runs_op]
  simp only [runs_bind, runs_resetAll, hchip, hop, runs_set, runs_writeSleepStngs]
  rfl

/-- The accesses of a call, left to themselves, do what the call does. -/
theorem runs_prog (c : RadioCall) : (c.prog t).runs t r = ((), c.exec t r) := by
  cases c with
  | initRadio => exact runs_initRadio r
  | set fld val => exact runs_set r fld val
  | writeStngs forRx => exact runs_writeStngs r forRx
  | writeSleepStngs => exact runs_writeSleepStngs r
  | _ => rfl

end Alone

/-! What a transfer leaves alone. -/

/-- A transfer of `n` octets from `addr` on does not come to the register `a`. -/
def Misses (a : RegAddr) : RegAddr → Nat → Prop
  | _, 0 => True
  | addr, n + 1 => addr ≠ a ∧ Misses a (Chip.nextAddr addr) n

instance (a addr : RegAddr) (n : Nat) : Decidable (Misses a addr n) := by
  induction n generalizing addr with
  | zero => exact isTrue trivial
  | succ n ih => exact @instDecidableAnd _ _ _ (ih _)

theorem store_regs_other (c : Chip) {a addr : RegAddr} (h : addr ≠ a) (v : Octet) :
    (c.store addr v).regs a = c.regs a := by
  unfold Chip.store
  split
  · rfl
  · split
    · exact Function.update_of_ne h.symm _ _
    · exact Function.update_of_ne h.symm _ _

theorem storeAll_regs_other (c : Chip) {a addr : RegAddr} {vs : List Octet}
    (h : Misses a addr vs.length) : (c.storeAll addr vs).regs a = c.regs a := by
  induction vs generalizing c addr with
  | nil => rfl
  | cons v vs ih =>
    have hrest := ih (c.store addr v) h.2
    rw [Chip.storeAll, hrest, store_regs_other c h.1]

theorem write_regs_other (r : SX127xRadio) {a addr : RegAddr} (haddr : addr &&& 0x7F = addr)
    {data : List Octet} (h : Misses a addr data.length) :
    (r.write addr data).chip.regs a = r.chip.regs a := by
  rw [SX127xRadio.write_chip r haddr]
  exact storeAll_regs_other _ h

/-! The accesses of `write_stngs` before its loop. -/

section Calls
variable {φ : RadioOp → Prop} {α : Type}

theorem calls_access {o : RadioOp} {k : o.Res → RadioProg α} (ho : φ o)
    (hk : ∀ r, (k r).Calls φ) : Prog.Calls φ (RadioProg.op o >>= k) := ⟨ho, hk⟩

theorem calls_outstanding (hs : ∀ fld, φ (.getStng fld)) (ha : ∀ fld, φ (.getApplied fld))
    (fld : Fld) : (RadioProg.stngOutstanding fld).Calls φ :=
  ⟨hs fld, fun _ => ⟨ha fld, fun _ => trivial⟩⟩

theorem calls_errata (hs : ∀ fld, φ (.getStng fld)) (forRx : Bool) (freq : BitVec 32) :
    (RadioProg.errata forRx freq).Calls φ := by
  unfold RadioProg.errata
  split
  · refine calls_access (hs _) fun mode => ?_
    split
    · refine calls_access (hs _) fun bw => ?_
      split <;> trivial
    · trivial
  · trivial

theorem calls_errataOutstanding (hs : ∀ fld, φ (.getStng fld))
    (ha : ∀ fld, φ (.getApplied fld)) : RadioProg.errataOutstanding.Calls φ := by
  refine Prog.calls_bind (calls_outstanding hs ha _) fun b => ?_
  split
  · trivial
  · exact calls_outstanding hs ha _

theorem calls_writeErrata (hif : ∀ v, φ (.write regLoraIfFreq2 [v]))
    (hread : φ (.read regLoraDtctOptmz)) (hdtct : ∀ v, φ (.write regLoraDtctOptmz [v]))
    (autoIfOn : Bool) (regIfFreq2 : Octet) :
    (RadioProg.writeErrata autoIfOn regIfFreq2).Calls φ :=
  calls_access (hif _) fun _ => calls_access hread fun _ => ⟨hdtct _, fun _ => trivial⟩

theorem calls_writeFreq (hget : φ .getFreqApplied)
    (hw : ∀ data, data.length = 3 → φ (.write regRdoFreqHz data))
    (hput : ∀ freq, φ (.putFreqApplied freq)) (freq : BitVec 32) :
    (RadioProg.writeFreq freq).Calls φ := by
  refine calls_access hget fun applied => ?_
  split
  · exact calls_access (hw _ rfl) fun _ => ⟨hput _, fun _ => trivial⟩
  · trivial

end Calls
