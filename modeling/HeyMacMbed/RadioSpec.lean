import HeyMacMbed.Radio
import Mathlib.Tactic.Common

/-!
# What the driver's calls do to the registers

Every call's transfers are boiled down here to updates of the register file, so
that the modules above never look at SPI octets.
-/

open Bits Octets Fields

namespace SX127xRadio

/-- An address of 7 bits whose register simply takes what is written. -/
def Plain (a : RegAddr) : Prop :=
  a &&& 0x7F = a ∧ a ≠ regRdoFifo ∧ a ≠ regLoraIrqFlags

instance (a : RegAddr) : Decidable (Plain a) := inferInstanceAs (Decidable (_ ∧ _ ∧ _))

theorem has_of_sevenBit {a : RegAddr} (h : a &&& 0x7F = a) : has a 0x80 = false := by
  have h0 : (0x7F &&& 0x80 : Octet) = 0#8 := by decide
  rw [has, ← h, BitVec.and_assoc, h0, BitVec.and_zero]
  rfl

theorem has_writeCmd (a : RegAddr) : has (a ||| 0x80) 0x80 = true := by
  have h : has (0x80 : Octet) 0x80 = true := by decide
  rw [has_or, h, Bool.or_true]

theorem writeCmd_addr {a : RegAddr} (h : a &&& 0x7F = a) : (a ||| 0x80) &&& 0x7F = a := by
  have h0 : (0x7F &&& 0x80 : Octet) = 0#8 := by decide
  rw [BitVec.and_comm, BitVec.and_or_distrib_left, h0, BitVec.or_zero, BitVec.and_comm, h]

theorem transfer_write (c : Chip) {a : RegAddr} (h : a &&& 0x7F = a) (d : List Octet) :
    (c.transfer ((a ||| 0x80) :: d)).2 =
      Chip.storeAll { c with xfers := c.xfers ++ [(a ||| 0x80) :: d] } a d := by
  unfold Chip.transfer
  dsimp only
  rw [if_pos (has_writeCmd a), writeCmd_addr h]

theorem transfer_read (c : Chip) {a : RegAddr} (h : a &&& 0x7F = a) (d : List Octet) :
    c.transfer (a :: d) =
      (0 :: c.loadAll a d.length, { c with xfers := c.xfers ++ [a :: d] }) := by
  have hload : ∀ (x : List (List Octet)) (b : RegAddr) (n : Nat),
      Chip.loadAll { c with xfers := x } b n = c.loadAll b n := by
    intro x b n
    induction n generalizing b with
    | zero => rfl
    | succ n ih => rw [Chip.loadAll, Chip.loadAll, ih]
  unfold Chip.transfer
  dsimp only
  rw [if_neg (by rw [has_of_sevenBit h]; exact Bool.false_ne_true), h, hload]

variable (r : SX127xRadio)

theorem readReg_fst {a : RegAddr} (h : a &&& 0x7F = a) : (r.readReg a).1 = r.chip.regs a := by
  have hcmd : a &&& ~~~0x80 = a := h
  simp only [readReg, read]
  rw [hcmd, transfer_read _ h]
  rfl

@[simp] theorem readReg_regs (a : RegAddr) : (r.readReg a).2.chip.regs = r.chip.regs := by
  have hcmd : (a &&& ~~~0x80) &&& 0x7F = a &&& ~~~0x80 := by
    rw [BitVec.and_assoc]
    rfl
  simp only [readReg, read]
  rw [transfer_read _ hcmd]

@[simp] theorem readReg_rdoStngs (a : RegAddr) : (r.readReg a).2.rdoStngs = r.rdoStngs := rfl

theorem write_chip {a : RegAddr} (h : a &&& 0x7F = a) (d : List Octet) :
    (r.write a d).chip =
      Chip.storeAll { r.chip with xfers := r.chip.xfers ++ [(a ||| 0x80) :: d] } a d :=
  transfer_write r.chip h d

theorem write_regs {a : RegAddr} (h : Plain a) (v : Octet) :
    (r.write a [v]).chip.regs = Function.update r.chip.regs a v := by
  rw [write_chip r h.1]
  simp [Chip.storeAll, Chip.store, h.2.1, h.2.2]

/-- A transfer to the interrupt flags clears those written 1. -/
theorem writeLoraIrqFlags_regs (clearThese : Octet) :
    (r.writeLoraIrqFlags clearThese).chip.regs =
      Function.update r.chip.regs regLoraIrqFlags
        (r.chip.regs regLoraIrqFlags &&& ~~~clearThese) := by
  rw [writeLoraIrqFlags, write_chip r (by decide)]
  rfl

theorem writeLoraIrqMask_regs (disableThese enableThese : Octet) :
    (r.writeLoraIrqMask disableThese enableThese).chip.regs =
      Function.update r.chip.regs regLoraIrqMask
        ((r.chip.regs regLoraIrqMask ||| disableThese) &&& ~~~enableThese) := by
  simp only [writeLoraIrqMask]
  rw [write_regs _ (by decide), readReg_regs, readReg_fst r (by decide)]

/-- The three FIFO pointers. -/
theorem writeFifoPtr_regs (offset : Octet) :
    (r.writeFifoPtr offset).chip.regs =
      Function.update (Function.update (Function.update r.chip.regs 0x0D offset) 0x0E offset)
        0x0F offset := by
  rw [writeFifoPtr, write_chip r (by decide)]
  rfl

theorem storeAll_fifo (c : Chip) (vs : List Octet) :
    c.storeAll regRdoFifo vs = { c with fifo := c.fifo ++ vs } := by
  induction vs generalizing c with
  | nil => simp [Chip.storeAll]
  | cons v vs ih =>
    have hnext : Chip.nextAddr regRdoFifo = regRdoFifo := by decide
    have hstore : c.store regRdoFifo v = { c with fifo := c.fifo ++ [v] } := if_pos rfl
    rw [Chip.storeAll, hnext, ih, hstore]
    simp

/-- All octets after the command go to the FIFO. -/
theorem writeFifo_chip (data : Mem) {sz : Nat} (h : 0 < sz) :
    (r.writeFifo data sz).2.chip =
      { regs := r.chip.regs
        fifo := r.chip.fifo ++ get data 1 (sz - 1)
        xfers := r.chip.xfers ++ [0x80 :: get data 1 (sz - 1)] } := by
  obtain ⟨n, rfl⟩ := Nat.exists_eq_succ_of_ne_zero (Nat.ne_of_gt h)
  have hget : get (Function.update data 0 (regRdoFifo ||| 0x80)) 0 (n + 1) =
      (regRdoFifo ||| 0x80) :: get data 1 n := by
    simp only [Octets.get, Function.update_self]
    refine congrArg _ (get_congr fun k _ => ?_)
    exact Function.update_of_ne (by omega) _ _
  simp only [writeFifo, Nat.succ_eq_add_one, Nat.add_sub_cancel]
  rw [hget, transfer_write _ (by decide), storeAll_fifo]
  rfl

theorem writeFifo_regs (data : Mem) (sz : Nat) :
    (r.writeFifo data sz).2.chip.regs = r.chip.regs := by
  cases sz with
  | zero => rfl
  | succ n => rw [writeFifo_chip r data (Nat.succ_pos n)]

/-- The bits of the op mode. -/
def opModeField : BitField RegAddr := ⟨regRdoOpmode, 0, 3⟩

theorem writeOpMode_regs (m : OpMode) :
    (r.writeOpMode m).chip.regs = opModeField.write r.chip.regs 0x7 m.code := by
  simp only [writeOpMode]
  rw [write_regs _ (by decide), readReg_regs, readReg_fst r (by decide)]
  simp [BitField.write, opModeField, rmw]

theorem writeErrata_regs (autoIfOn : Bool) (regIfFreq2 : Octet) :
    (r.writeErrata autoIfOn regIfFreq2).chip.regs =
      Function.update (Function.update r.chip.regs regLoraIfFreq2 regIfFreq2) regLoraDtctOptmz
        ((r.chip.regs regLoraDtctOptmz &&& ~~~0x80) ||| (if autoIfOn then 0x80 else 0)) := by
  simp only [writeErrata]
  rw [write_regs _ (by decide), readReg_regs, readReg_fst _ (by decide), write_regs _ (by decide),
    Function.update_of_ne (by decide)]

/-- The three octets of a carrier frequency, MSB first. -/
def freqOctets (freq : BitVec 32) : Octet × Octet × Octet :=
  ((freq >>> 16 &&& 0xFF).setWidth 8, (freq >>> 8 &&& 0xFF).setWidth 8,
    (freq >>> 0 &&& 0xFF).setWidth 8)

/-- An outstanding frequency goes to its three registers. -/
theorem writeFreq_regs (freq : BitVec 32) :
    (r.writeFreq freq).chip.regs =
      if freq ≠ r.rdoStngsFreqApplied then
        Function.update (Function.update (Function.update r.chip.regs 0x06 (freqOctets freq).1)
          0x07 (freqOctets freq).2.1) 0x08 (freqOctets freq).2.2
      else r.chip.regs := by
  unfold writeFreq
  split
  · simp only
    rw [write_chip r (by decide)]
    rfl
  · rfl

/-- The carrier frequency only goes to its own three registers. -/
theorem writeFreq_regs_other (freq : BitVec 32) {a : RegAddr}
    (h : a ≠ 0x06 ∧ a ≠ 0x07 ∧ a ≠ 0x08) : (r.writeFreq freq).chip.regs a = r.chip.regs a := by
  rw [writeFreq_regs]
  split
  · rw [Function.update_of_ne h.2.2, Function.update_of_ne h.2.1, Function.update_of_ne h.1]
  · rfl

/-- After the write the frequency is the one noted. -/
theorem writeFreq_freqApplied (freq : BitVec 32) :
    (r.writeFreq freq).rdoStngsFreqApplied = freq := by
  unfold writeFreq
  split
  · rfl
  · rename_i h
    exact (not_not.mp h).symm

@[simp] theorem writeFreq_rdoStngs (freq : BitVec 32) :
    (r.writeFreq freq).rdoStngs = r.rdoStngs := by
  unfold writeFreq
  split <;> rfl

@[simp] theorem writeFreq_applied (freq : BitVec 32) :
    (r.writeFreq freq).rdoStngsApplied = r.rdoStngsApplied := by
  unfold writeFreq
  split <;> rfl

section Settings
variable (t : Target) (fld : Fld)

/-- The bits of a setting. -/
def fieldOf (fld : Fld) : BitField RegAddr := (stngsInfoLut fld).field

/-- The mask `write_stngs` computes for a setting. -/
def bitf : Octet := (t.bitFld (stngsInfoLut fld).bitStart (stngsInfoLut fld).bitCnt).setWidth 8

/-- `set` only stores in the settings asked for. -/
@[simp] theorem set_applied (val : BitVec 32) :
    (r.set t fld val).rdoStngsApplied = r.rdoStngsApplied := by
  unfold set
  split
  · cases fld <;> rfl
  · rfl

@[simp] theorem set_chip (val : BitVec 32) : (r.set t fld val).chip = r.chip := by
  unfold set
  split
  · cases fld <;> rfl
  · rfl

@[simp] theorem set_freqApplied (val : BitVec 32) :
    (r.set t fld val).rdoStngsFreqApplied = r.rdoStngsFreqApplied := by
  unfold set
  split
  · cases fld <;> rfl
  · rfl

theorem regStart_plain : ∀ fld, Plain (stngsInfoLut fld).regStart := by decide

theorem writeFld_regs :
    (r.writeFld t fld).chip.regs =
      if r.rdoStngs fld ≠ r.rdoStngsApplied fld then
        (fieldOf fld).write r.chip.regs (bitf t fld) (r.rdoStngs fld)
      else r.chip.regs := by
  have hp := regStart_plain fld
  unfold writeFld
  split
  · simp only
    rw [write_regs _ hp, readReg_regs, readReg_fst r hp.1]
    rfl
  · rfl

@[simp] theorem writeFld_rdoStngs : (r.writeFld t fld).rdoStngs = r.rdoStngs := by
  unfold writeFld
  split <;> rfl

theorem writeFld_applied :
    (r.writeFld t fld).rdoStngsApplied =
      Function.update r.rdoStngsApplied fld (r.rdoStngs fld) := by
  unfold writeFld
  split
  · rfl
  · rename_i h
    have heq : r.rdoStngs fld = r.rdoStngsApplied fld := by simpa using h
    rw [heq, Function.update_eq_self]

theorem writeFld_regs_other {a : RegAddr} (h : a ≠ (stngsInfoLut fld).regStart) :
    (r.writeFld t fld).chip.regs a = r.chip.regs a := by
  rw [writeFld_regs]
  split
  · exact Function.update_of_ne h _ _
  · rfl

/-- The loop over the fields, as a fold. -/
def writeFlds (flds : List Fld) : SX127xRadio := flds.foldl (writeFld t) r

theorem writeFlds_cons (flds : List Fld) :
    r.writeFlds t (fld :: flds) = (r.writeFld t fld).writeFlds t flds := rfl

/-- What the write of each field keeps, the loop keeps. -/
theorem writeFlds_invariant {I : SX127xRadio → Prop}
    (hstep : ∀ r fld, I r → I (r.writeFld t fld)) {r : SX127xRadio} (h : I r)
    (flds : List Fld) : I (r.writeFlds t flds) := by
  induction flds generalizing r with
  | nil => exact h
  | cons fld flds ih => exact ih (hstep r fld h)

@[simp] theorem writeFlds_rdoStngs (flds : List Fld) :
    (r.writeFlds t flds).rdoStngs = r.rdoStngs :=
  writeFlds_invariant t (I := fun r' => r'.rdoStngs = r.rdoStngs)
    (fun r' fld h => (writeFld_rdoStngs r' t fld).trans h) rfl flds

theorem writeFlds_applied (flds : List Fld) :
    (r.writeFlds t flds).rdoStngsApplied fld =
      if fld ∈ flds then r.rdoStngs fld else r.rdoStngsApplied fld := by
  induction flds generalizing r with
  | nil => rfl
  | cons g flds ih =>
    rw [writeFlds_cons, ih, writeFld_rdoStngs, writeFld_applied]
    by_cases hf : fld ∈ flds
    · simp [hf]
    · by_cases hg : fld = g
      · subst hg
        simp [hf]
      · simp [hf, hg]

/-- A register all of whose fields are written already. -/
theorem writeFlds_regs_idle (flds : List Fld) {a : RegAddr}
    (h : ∀ fld, a = (stngsInfoLut fld).regStart → r.rdoStngs fld = r.rdoStngsApplied fld) :
    (r.writeFlds t flds).chip.regs a = r.chip.regs a := by
  induction flds generalizing r with
  | nil => rfl
  | cons g flds ih =>
    have hstep : (r.writeFld t g).chip.regs a = r.chip.regs a := by
      by_cases ha : a = (stngsInfoLut g).regStart
      · rw [writeFld_regs, if_neg (not_not.mpr (h g ha))]
      · exact writeFld_regs_other r t g ha
    rw [writeFlds_cons, ih, hstep]
    intro fld ha
    rw [writeFld_rdoStngs, writeFld_applied]
    by_cases hg : fld = g
    · rw [hg, Function.update_self]
    · rw [Function.update_of_ne hg]
      exact h fld ha

theorem writeFlds_regs_other (flds : List Fld) {a : RegAddr}
    (h : ∀ fld, a ≠ (stngsInfoLut fld).regStart) :
    (r.writeFlds t flds).chip.regs a = r.chip.regs a :=
  writeFlds_regs_idle r t flds fun fld ha => absurd ha (h fld)

/-- A register that is a single field's own takes the setting if it is outstanding. -/
theorem writeFlds_own {flds : List Fld} (hmem : fld ∈ flds)
    (hown : ∀ g, (stngsInfoLut fld).regStart = (stngsInfoLut g).regStart → g = fld)
    (hmask : bitf t fld = 0xFF) (hstart : (stngsInfoLut fld).bitStart = 0) :
    (r.writeFlds t flds).chip.regs (stngsInfoLut fld).regStart =
      if r.rdoStngs fld ≠ r.rdoStngsApplied fld then r.rdoStngs fld
      else r.chip.regs (stngsInfoLut fld).regStart := by
  induction flds generalizing r with
  | nil => cases hmem
  | cons g flds ih =>
    rw [writeFlds_cons]
    by_cases hg : g = fld
    · subst hg
      -- its own turn; afterwards it is written already
      have hrest : ∀ k, (stngsInfoLut g).regStart = (stngsInfoLut k).regStart →
          (r.writeFld t g).rdoStngs k = (r.writeFld t g).rdoStngsApplied k := by
        intro k hk
        rw [hown k hk, writeFld_rdoStngs, writeFld_applied, Function.update_self]
      rw [writeFlds_regs_idle _ t flds hrest, writeFld_regs]
      split
      · have hset : ∀ x v : Octet, rmw x 0xFF v 0 = v := by
          intro x v
          have hx : x &&& ~~~(0xFF : Octet) = 0#8 := BitVec.and_zero
          have hv : (0xFF : Octet) &&& v <<< 0 = v := by
            rw [BitVec.shiftLeft_zero]
            exact BitVec.allOnes_and
          rw [rmw, hx, hv, BitVec.zero_or]
        show (BitField.write _ _ _ _) (fieldOf g).reg = _
        rw [BitField.write, Function.update_self, hmask]
        have hs : (fieldOf g).start = 0 := hstart
        rw [hs, hset]
      · rfl
    · have hmem' : fld ∈ flds := (List.mem_cons.mp hmem).resolve_left fun e => hg e.symm
      have hne : (stngsInfoLut fld).regStart ≠ (stngsInfoLut g).regStart :=
        fun e => hg (hown g e)
      rw [ih _ hmem', writeFld_rdoStngs, writeFld_applied,
        Function.update_of_ne fun e => hg e.symm, writeFld_regs_other r t g hne]

/-- The registers before the loop of `write_stngs`. -/
def beforeFlds (forRx : Bool) : SX127xRadio :=
  (if r.ErrataOutstanding then r.writeErrata (r.errata forRx).2.1 (r.errata forRx).2.2
    else r).writeFreq (r.errata forRx).1

theorem writeStngs_eq (forRx : Bool) :
    r.writeStngs t forRx = (r.beforeFlds forRx).writeFlds t Fld.all := rfl

@[simp] theorem beforeFlds_rdoStngs (forRx : Bool) :
    (r.beforeFlds forRx).rdoStngs = r.rdoStngs := by
  rw [beforeFlds, writeFreq_rdoStngs]
  split <;> rfl

@[simp] theorem beforeFlds_applied (forRx : Bool) :
    (r.beforeFlds forRx).rdoStngsApplied = r.rdoStngsApplied := by
  rw [beforeFlds, writeFreq_applied]
  split <;> rfl

/-- The loop notes no frequency. -/
@[simp] theorem writeFlds_freqApplied (flds : List Fld) :
    (r.writeFlds t flds).rdoStngsFreqApplied = r.rdoStngsFreqApplied := by
  refine writeFlds_invariant t (I := fun r' => r'.rdoStngsFreqApplied = r.rdoStngsFreqApplied)
    (fun r' fld h => ?_) rfl flds
  unfold writeFld
  split <;> exact h

/-- `write_stngs` notes the frequency it was to apply. -/
theorem writeStngs_freqApplied (forRx : Bool) :
    (r.writeStngs t forRx).rdoStngsFreqApplied = (r.errata forRx).1 := by
  rw [writeStngs_eq, writeFlds_freqApplied, beforeFlds, writeFreq_freqApplied]

@[simp] theorem writeStngs_rdoStngs (forRx : Bool) :
    (r.writeStngs t forRx).rdoStngs = r.rdoStngs := by
  rw [writeStngs_eq, writeFlds_rdoStngs, beforeFlds_rdoStngs]

/-- `write_stngs` leaves nothing outstanding. -/
@[simp] theorem writeStngs_applied (forRx : Bool) :
    (r.writeStngs t forRx).rdoStngsApplied = r.rdoStngs := by
  funext fld
  rw [writeStngs_eq, writeFlds_applied, if_pos (Fld.mem_all fld), beforeFlds_rdoStngs]

theorem beforeFlds_regs_other (forRx : Bool) {a : RegAddr}
    (h : a ∉ [regLoraIfFreq2, regLoraDtctOptmz, 0x06, 0x07, 0x08]) :
    (r.beforeFlds forRx).chip.regs a = r.chip.regs a := by
  simp only [List.mem_cons, List.not_mem_nil, or_false, not_or] at h
  obtain ⟨h1, h2, hf⟩ := h
  rw [beforeFlds, writeFreq_regs_other _ _ hf]
  split
  · rw [writeErrata_regs, Function.update_of_ne h2, Function.update_of_ne h1]
  · rfl

/-- `write_stngs` leaves a register alone all of whose fields are written already. -/
theorem writeStngs_regs_idle (forRx : Bool) {a : RegAddr}
    (ha : a ∉ [regLoraIfFreq2, regLoraDtctOptmz, 0x06, 0x07, 0x08])
    (h : ∀ fld, a = (stngsInfoLut fld).regStart → r.rdoStngs fld = r.rdoStngsApplied fld) :
    (r.writeStngs t forRx).chip.regs a = r.chip.regs a := by
  rw [writeStngs_eq, writeFlds_regs_idle, beforeFlds_regs_other r forRx ha]
  intro fld hfld
  rw [beforeFlds_rdoStngs, beforeFlds_applied]
  exact h fld hfld

end Settings

theorem writeSleepStngs_rdoStngs : r.writeSleepStngs.rdoStngs = r.rdoStngs := by
  unfold writeSleepStngs
  split <;> rfl

theorem writeSleepStngs_applied :
    r.writeSleepStngs.rdoStngsApplied =
      Function.update r.rdoStngsApplied .rdoLoraMode (r.rdoStngs .rdoLoraMode) := by
  unfold writeSleepStngs
  split
  · rfl
  · rename_i h
    have heq : r.rdoStngs .rdoLoraMode = r.rdoStngsApplied .rdoLoraMode := by simpa using h
    rw [heq, Function.update_eq_self]

theorem writeSleepStngs_regs_other {a : RegAddr} (h : a ≠ regRdoOpmode) :
    r.writeSleepStngs.chip.regs a = r.chip.regs a := by
  unfold writeSleepStngs
  split
  · simp only
    rw [write_regs _ (by decide), readReg_regs, Function.update_of_ne h]
  · rfl

theorem loraBit_rmw : ∀ x : Octet,
    x ||| 0x80 = rmw x 0x80 1 7 ∧ x &&& ~~~0x80 = rmw x 0x80 0 7 := by decide

/-- The sleep path writes the LoRa mode field. -/
theorem writeSleepStngs_regs (h : (r.rdoStngs .rdoLoraMode).toNat < 2) :
    r.writeSleepStngs.chip.regs =
      if r.rdoStngs .rdoLoraMode ≠ r.rdoStngsApplied .rdoLoraMode then
        (fieldOf .rdoLoraMode).write r.chip.regs 0x80 (r.rdoStngs .rdoLoraMode)
      else r.chip.regs := by
  have hval : r.rdoStngs .rdoLoraMode = 0 ∨ r.rdoStngs .rdoLoraMode = 1 := by
    rcases Nat.lt_or_ge (r.rdoStngs .rdoLoraMode).toNat 1 with h0 | h1
    · exact Or.inl (BitVec.eq_of_toNat_eq (by simp; omega))
    · exact Or.inr (BitVec.eq_of_toNat_eq (by simp; omega))
  unfold writeSleepStngs
  split
  · simp only
    rw [write_regs _ (by decide), readReg_regs, readReg_fst r (by decide), readReg_rdoStngs]
    rcases hval with h0 | h1
    · rw [h0, if_neg (by decide)]
      exact congrArg (Function.update r.chip.regs regRdoOpmode) (loraBit_rmw _).2
    · rw [h1, if_pos (by decide)]
      exact congrArg (Function.update r.chip.regs regRdoOpmode) (loraBit_rmw _).1
  · rfl

end SX127xRadio
