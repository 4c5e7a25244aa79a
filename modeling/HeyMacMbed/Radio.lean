import HeyMacMbed.Fields
import HeyMacMbed.Octets

/-!
# The radio and its driver

The chip is a register file behind SPI: the first octet of a transfer is the
address, with bit 7 telling a write, and the address steps on with every further
octet except in the FIFO. The driver keeps two copies of the settings, the one
asked for and the one written, and rewrites the fields in which they differ.
-/

open Bits Octets Fields

abbrev RegAddr := Octet

def regRdoFifo : RegAddr := 0x00
def regRdoOpmode : RegAddr := 0x01
def regRdoFreqHz : RegAddr := 0x06
def regRdoPaCfg : RegAddr := 0x09
def regRdoLna : RegAddr := 0x0C
def regRdoDiomap1 : RegAddr := 0x40
def regRdoDiomap2 : RegAddr := 0x41
def regRdoChipVrsn : RegAddr := 0x42
def regLoraFifoAddrPtr : RegAddr := 0x0D
def regLoraIrqMask : RegAddr := 0x11
def regLoraIrqFlags : RegAddr := 0x12
def regLoraCfg1 : RegAddr := 0x1D
def regLoraCfg2 : RegAddr := 0x1E
def regLoraRxSymTmout : RegAddr := 0x1F
def regLoraPreambleLen : RegAddr := 0x20
def regLoraPreambleLenLsb : RegAddr := 0x21
def regLoraCfg3 : RegAddr := 0x26
def regLoraRssiWb : RegAddr := 0x2C
def regLoraIfFreq2 : RegAddr := 0x2F
def regLoraDtctOptmz : RegAddr := 0x31
def regLoraSyncWord : RegAddr := 0x39

/-- Field indices used to select radio settings. -/
inductive Fld where
  | rdoLfMode | rdoLoraMode | rdoFreqHz | rdoOutPwr | rdoMaxPwr | rdoPaBoost | rdoLnaBoostHf
  | rdoLnaGain | rdoDio0 | rdoDio1 | rdoDio2 | rdoDio3 | rdoDio4 | rdoDio5
  | loraImplctHdrMode | loraCr | loraBw | loraCrcEn | loraSf | loraRxTmout | loraRxTmout2
  | loraPreambleLen | loraPreambleLen2 | loraAgcOn | loraSyncWord
  deriving DecidableEq

namespace Fld

/-- The indices in the order of the loops over `FLD_CNT`. -/
def all : List Fld :=
  [rdoLfMode, rdoLoraMode, rdoFreqHz, rdoOutPwr, rdoMaxPwr, rdoPaBoost, rdoLnaBoostHf,
    rdoLnaGain, rdoDio0, rdoDio1, rdoDio2, rdoDio3, rdoDio4, rdoDio5,
    loraImplctHdrMode, loraCr, loraBw, loraCrcEn, loraSf, loraRxTmout, loraRxTmout2,
    loraPreambleLen, loraPreambleLen2, loraAgcOn, loraSyncWord]

theorem mem_all (fld : Fld) : fld ∈ all := by cases fld <;> decide

instance (p : Fld → Prop) [DecidablePred p] : Decidable (∀ fld, p fld) :=
  decidable_of_iff (∀ fld ∈ all, p fld)
    ⟨fun h fld => h fld (mem_all fld), fun h fld _ => h fld⟩

end Fld

structure StngsInfo where
  regStart : RegAddr
  regCnt : Nat
  bitStart : Nat
  bitCnt : Nat
  valMin : BitVec 32
  valMax : BitVec 32
  resetVal : BitVec 32

def freqMin : BitVec 32 := 137000000
def freqMax : BitVec 32 := 1020000000
def stngLoraBw250k : Octet := 8
def stngLoraBw500k : Octet := 9

/-- Radio settings constant information lookup table. -/
def stngsInfoLut : Fld → StngsInfo
  | .rdoLfMode => ⟨regRdoOpmode, 1, 3, 1, 0, 1, 1⟩
  | .rdoLoraMode => ⟨regRdoOpmode, 1, 7, 1, 0, 1, 0⟩
  | .rdoFreqHz => ⟨regRdoFreqHz, 3, 0, 8, freqMin, freqMax, 0x6C⟩
  | .rdoOutPwr => ⟨regRdoPaCfg, 1, 0, 4, 0, 15, 0x0F⟩
  | .rdoMaxPwr => ⟨regRdoPaCfg, 1, 4, 3, 0, 7, 0x04⟩
  | .rdoPaBoost => ⟨regRdoPaCfg, 1, 7, 1, 0, 1, 0⟩
  | .rdoLnaBoostHf => ⟨regRdoLna, 1, 0, 2, 0, 3, 0⟩
  | .rdoLnaGain => ⟨regRdoLna, 1, 5, 3, 1, 6, 0x01⟩
  | .rdoDio0 => ⟨regRdoDiomap1, 1, 6, 2, 0, 2, 0⟩
  | .rdoDio1 => ⟨regRdoDiomap1, 1, 4, 2, 0, 2, 0⟩
  | .rdoDio2 => ⟨regRdoDiomap1, 1, 2, 2, 0, 2, 0⟩
  | .rdoDio3 => ⟨regRdoDiomap1, 1, 0, 2, 0, 2, 0⟩
  | .rdoDio4 => ⟨regRdoDiomap2, 1, 6, 2, 0, 2, 0⟩
  | .rdoDio5 => ⟨regRdoDiomap2, 1, 4, 2, 0, 2, 0⟩
  | .loraImplctHdrMode => ⟨regLoraCfg1, 1, 0, 1, 0, 1, 0⟩
  | .loraCr => ⟨regLoraCfg1, 1, 1, 3, 1, 4, 1⟩
  | .loraBw => ⟨regLoraCfg1, 1, 4, 4, 0, 9, 7⟩
  | .loraCrcEn => ⟨regLoraCfg2, 1, 2, 1, 0, 1, 0⟩
  | .loraSf => ⟨regLoraCfg2, 1, 4, 4, 6, 12, 7⟩
  | .loraRxTmout => ⟨regLoraCfg2, 2, 0, 2, 0, 1023, 0x00⟩
  | .loraRxTmout2 => ⟨regLoraRxSymTmout, 0, 0, 0, 0, 0, 0x64⟩
  | .loraPreambleLen => ⟨regLoraPreambleLen, 2, 0, 16, 0, 65535, 0x00⟩
  | .loraPreambleLen2 => ⟨regLoraPreambleLenLsb, 0, 0, 0, 0, 0, 0x08⟩
  | .loraAgcOn => ⟨regLoraCfg3, 1, 2, 1, 0, 1, 0⟩
  | .loraSyncWord => ⟨regLoraSyncWord, 1, 0, 8, 0, 255, 0x12⟩

/-- The bits a setting occupies. -/
def StngsInfo.field (i : StngsInfo) : BitField RegAddr := ⟨i.regStart, i.bitStart, i.bitCnt⟩

/-- What the source leaves to the hardware. -/
structure Target where
  /-- Register contents after a pin reset. -/
  hwreset : RegFile RegAddr 8
  hwreset_stngs : ∀ fld, (stngsInfoLut fld).regCnt = 1 →
    ((stngsInfoLut fld).field.read hwreset).toNat = (stngsInfoLut fld).resetVal.toNat
  hwreset_ifFreq2 : hwreset regLoraIfFreq2 = 0x20
  /-- A 32-bit word shifted right by 32 or more, which C leaves undefined. -/
  shrUndef : BitVec 32

/-- A chip whose registers without a row in the table reset to 0, and whose undefined
shifts give 0. -/
def Target.plain : Target where
  hwreset := fun a =>
    if a = regRdoOpmode then 0x09
    else if a = regRdoPaCfg then 0x4F
    else if a = regRdoLna then 0x20
    else if a = regLoraCfg1 then 0x72
    else if a = regLoraCfg2 then 0x70
    else if a = regLoraIfFreq2 then 0x20
    else if a = regLoraSyncWord then 0x12
    else if a = regRdoChipVrsn then 0x12
    else 0
  hwreset_stngs := by decide
  hwreset_ifFreq2 := rfl
  shrUndef := 0

/-- `BIT_FLD(ls1, nbits)`, on 32-bit unsigned. -/
def Target.bitFld (t : Target) (ls1 nbits : Nat) : BitVec 32 :=
  let shift : Int := 31 - (ls1 + nbits - 1 : Int)
  (if 0 ≤ shift ∧ shift < 32 then BitVec.allOnes 32 >>> shift.toNat else t.shrUndef) &&&
    ~~~((1#32 <<< ls1) - 1)

inductive OpMode where
  | sleep | stby | fstx | tx | fsrx | rxcont | rxonce | cad
  deriving DecidableEq

def OpMode.code : OpMode → Octet
  | .sleep => 0
  | .stby => 1
  | .fstx => 2
  | .tx => 3
  | .fsrx => 4
  | .rxcont => 5
  | .rxonce => 6
  | .cad => 7

/-- The signals the radio gives its callback. -/
inductive SigDio where
  | modeRdy | cadDetected | cadDone | fhssChgChnl | rxTmout | rxDone | clkOut | pllLock
  | validHdr | txDone | payldCrcErr
  deriving DecidableEq

def loraIrqTxDone : Octet := 0x08
def loraIrqValidHeader : Octet := 0x10
def loraIrqPayldCrcErr : Octet := 0x20
def loraIrqRxDone : Octet := 0x40
def loraIrqAll : Octet := 0xFF

/-- The radio chip. `xfers` are the octets sent to it, one list a transfer. -/
structure Chip where
  regs : RegFile RegAddr 8
  fifo : List Octet
  xfers : List (List Octet)

namespace Chip

/-- A register takes the octet; the FIFO appends it, and a 1 clears an interrupt flag. -/
def store (c : Chip) (addr : RegAddr) (v : Octet) : Chip :=
  if addr = regRdoFifo then { c with fifo := c.fifo ++ [v] }
  else if addr = regLoraIrqFlags then
    { c with regs := Function.update c.regs addr (c.regs addr &&& ~~~v) }
  else { c with regs := Function.update c.regs addr v }

def nextAddr (addr : RegAddr) : RegAddr :=
  if addr = regRdoFifo then addr else (addr + 1) &&& 0x7F

def storeAll (c : Chip) : RegAddr → List Octet → Chip
  | _, [] => c
  | addr, v :: vs => (c.store addr v).storeAll (nextAddr addr) vs

def loadAll (c : Chip) : RegAddr → Nat → List Octet
  | _, 0 => []
  | addr, n + 1 => c.regs addr :: c.loadAll (nextAddr addr) n

/-- One SPI transfer, with the octets the chip returns meanwhile. -/
def transfer (c : Chip) (mosi : List Octet) : List Octet × Chip :=
  let c := { c with xfers := c.xfers ++ [mosi] }
  match mosi with
  | [] => ([], c)
  | cmd :: data =>
    if has cmd 0x80 then (0 :: data.map fun _ => 0, c.storeAll (cmd &&& 0x7F) data)
    else (0 :: c.loadAll (cmd &&& 0x7F) data.length, c)

end Chip

structure SX127xRadio where
  rdoStngs : Fld → Octet
  rdoStngsFreq : BitVec 32
  rdoStngsApplied : Fld → Octet
  rdoStngsFreqApplied : BitVec 32
  rngRaw : BitVec 32
  chip : Chip

namespace SX127xRadio

/-- A driver in zeroed memory, before `init_radio`. -/
def zeroed : SX127xRadio := ⟨fun _ => 0, 0, fun _ => 0, 0, 0, ⟨fun _ => 0, [], []⟩⟩

/-- `_read(addr, data, sz)`. -/
def read (r : SX127xRadio) (addr : RegAddr) (sz : Nat) : List Octet × SX127xRadio :=
  let x := r.chip.transfer ((addr &&& ~~~0x80) :: List.replicate sz 0)
  (x.1.drop 1, { r with chip := x.2 })

/-- `_read(addr, &reg)`. -/
def readReg (r : SX127xRadio) (addr : RegAddr) : Octet × SX127xRadio :=
  let x := r.read addr 1
  (x.1.headD 0, x.2)

/-- `_write(addr, data, sz)`. -/
def write (r : SX127xRadio) (addr : RegAddr) (data : List Octet) : SX127xRadio :=
  { r with chip := (r.chip.transfer ((addr ||| 0x80) :: data)).2 }

def resetRdoStngs (r : SX127xRadio) : SX127xRadio :=
  { r with
    rdoStngs := fun fld => (stngsInfoLut fld).resetVal.setWidth 8
    rdoStngsApplied := fun fld => (stngsInfoLut fld).resetVal.setWidth 8 }

/-- `_validate_chip()`; its assertion stops a debug build on a wrong silicon revision. -/
def validateChip (r : SX127xRadio) : SX127xRadio := (r.readReg regRdoChipVrsn).2

def readOpMode (r : SX127xRadio) : Octet × SX127xRadio :=
  let (reg, r) := r.readReg regRdoOpmode
  (reg &&& 0x07, r)

variable (t : Target)

/-- The pin reset puts the registers to their reset values. -/
def pinReset (r : SX127xRadio) : SX127xRadio :=
  { r with chip := { r.chip with regs := t.hwreset } }

/-- The bounds check of `set`. -/
def InBounds (fld : Fld) (val : BitVec 32) : Prop :=
  (stngsInfoLut fld).valMin ≤ val ∧ val ≤ (stngsInfoLut fld).valMax

instance (fld : Fld) (val : BitVec 32) : Decidable (InBounds fld val) :=
  inferInstanceAs (Decidable (_ ∧ _))

/-- The store `_rdo_stngs[fld] = v`. -/
def putStng (r : SX127xRadio) (fld : Fld) (v : Octet) : SX127xRadio :=
  { r with rdoStngs := Function.update r.rdoStngs fld v }

def set (r : SX127xRadio) (fld : Fld) (val : BitVec 32) : SX127xRadio :=
  if InBounds fld val then
    match fld with
    | .rdoFreqHz => { r with rdoStngsFreq := val }
    | .loraRxTmout =>
      (r.putStng .loraRxTmout ((val >>> 8 &&& 0xFF).setWidth 8)).putStng .loraRxTmout2
        ((val >>> 0 &&& 0xFF).setWidth 8)
    | .loraPreambleLen =>
      (r.putStng .loraPreambleLen ((val >>> 8 &&& 0xFF).setWidth 8)).putStng .loraPreambleLen2
        ((val >>> 0 &&& 0xFF).setWidth 8)
    | fld => r.putStng fld ((val &&& t.bitFld 0 (stngsInfoLut fld).bitCnt).setWidth 8)
  else r

def stngsRequireSleep (r : SX127xRadio) : Bool :=
  r.rdoStngs .rdoLoraMode != r.rdoStngsApplied .rdoLoraMode

/-- The least-significant bit of RSSI is the noise. -/
def updtRng (r : SX127xRadio) : SX127xRadio :=
  let (reg, r) := r.readReg regLoraRssiWb
  { r with rngRaw := (r.rngRaw <<< 1) ||| (reg &&& 1).setWidth 32 }

/-- `write_fifo(data, sz)` on the memory at the caller's pointer, with the memory after it. -/
def writeFifo (r : SX127xRadio) (data : Mem) (sz : Nat) : Mem × SX127xRadio :=
  let data := Function.update data 0 (regRdoFifo ||| 0x80)
  (data, { r with chip := (r.chip.transfer (get data 0 sz)).2 })

def writeFifoPtr (r : SX127xRadio) (offset : Octet) : SX127xRadio :=
  r.write regLoraFifoAddrPtr [offset, offset, offset]

def writeLoraIrqMask (r : SX127xRadio) (disableThese enableThese : Octet) : SX127xRadio :=
  let (reg, r) := r.readReg regLoraIrqMask
  let reg := reg ||| disableThese
  let reg := reg &&& ~~~enableThese
  r.write regLoraIrqMask [reg]

def writeLoraIrqFlags (r : SX127xRadio) (clearThese : Octet) : SX127xRadio :=
  r.write regLoraIrqFlags [clearThese]

def writeOpMode (r : SX127xRadio) (opMode : OpMode) : SX127xRadio :=
  let (reg, r) := r.readReg regRdoOpmode
  let reg := reg &&& ~~~0x7
  let reg := reg ||| (0x7 &&& opMode.code)
  r.write regRdoOpmode [reg]

/-- `freq_info_lut`: rejection offset and second IF register of the bandwidths below 500K. -/
def freqInfoLut : List (BitVec 32 × Octet) :=
  [(7810, 0x48), (10420, 0x44), (15620, 0x44), (20830, 0x44), (31250, 0x44), (41670, 0x44),
    (0, 0x40), (0, 0x40), (0, 0x40)]

def freqInfo (bw : Octet) : BitVec 32 × Octet := freqInfoLut.getD bw.toNat (0, 0)

/-- The values `write_stngs` prepares: `freq`, `auto_if_on` and `reg_if_freq2`. -/
def errata (r : SX127xRadio) (forRx : Bool) : BitVec 32 × Bool × Octet :=
  if forRx ∧ r.rdoStngs .rdoLoraMode ≠ 0 then
    if r.rdoStngs .loraBw ≥ stngLoraBw500k then (r.rdoStngsFreq, true, 0x20)
    else (r.rdoStngsFreq + (freqInfo (r.rdoStngs .loraBw)).1, false,
      (freqInfo (r.rdoStngs .loraBw)).2)
  else (r.rdoStngsFreq, false, 0x20)

/-- LoRa mode or LoRa bandwidth has changed. -/
def ErrataOutstanding (r : SX127xRadio) : Prop :=
  r.rdoStngs .rdoLoraMode ≠ r.rdoStngsApplied .rdoLoraMode ∨
    r.rdoStngs .loraBw ≠ r.rdoStngsApplied .loraBw

instance (r : SX127xRadio) : Decidable r.ErrataOutstanding :=
  inferInstanceAs (Decidable (_ ∨ _))

def writeErrata (r : SX127xRadio) (autoIfOn : Bool) (regIfFreq2 : Octet) : SX127xRadio :=
  let r := r.write regLoraIfFreq2 [regIfFreq2]
  let (reg, r) := r.readReg regLoraDtctOptmz
  let reg := reg &&& ~~~0x80
  let reg := reg ||| (if autoIfOn then 0x80 else 0)
  r.write regLoraDtctOptmz [reg]

/-- Writes an outstanding carrier frequency. -/
def writeFreq (r : SX127xRadio) (freq : BitVec 32) : SX127xRadio :=
  if freq ≠ r.rdoStngsFreqApplied then
    let r := r.write regRdoFreqHz [(freq >>> 16 &&& 0xFF).setWidth 8,
      (freq >>> 8 &&& 0xFF).setWidth 8, (freq >>> 0 &&& 0xFF).setWidth 8]
    { r with rdoStngsFreqApplied := freq }
  else r

/-- The body of `write_stngs`'s loop over the fields. -/
def writeFld (r : SX127xRadio) (fld : Fld) : SX127xRadio :=
  if r.rdoStngs fld ≠ r.rdoStngsApplied fld then
    let (reg, r) := r.readReg (stngsInfoLut fld).regStart
    let bitf : Octet :=
      (t.bitFld (stngsInfoLut fld).bitStart (stngsInfoLut fld).bitCnt).setWidth 8
    let reg := reg &&& ~~~bitf
    let reg := reg ||| (bitf &&& (r.rdoStngs fld <<< (stngsInfoLut fld).bitStart))
    let r := r.write (stngsInfoLut fld).regStart [reg]
    { r with rdoStngsApplied := Function.update r.rdoStngsApplied fld (r.rdoStngs fld) }
  else r

def writeStngs (r : SX127xRadio) (forRx : Bool) : SX127xRadio :=
  let (freq, autoIfOn, regIfFreq2) := r.errata forRx
  let r := if r.ErrataOutstanding then r.writeErrata autoIfOn regIfFreq2 else r
  let r := r.writeFreq freq
  Fld.all.foldl (writeFld t) r

def writeSleepStngs (r : SX127xRadio) : SX127xRadio :=
  if r.rdoStngs .rdoLoraMode ≠ r.rdoStngsApplied .rdoLoraMode then
    let (reg, r) := r.readReg regRdoOpmode
    let reg := if r.rdoStngs .rdoLoraMode ≠ 0 then reg ||| 0x80 else reg &&& ~~~0x80
    let r := r.write regRdoOpmode [reg]
    { r with rdoStngsApplied :=
        Function.update r.rdoStngsApplied .rdoLoraMode (r.rdoStngs .rdoLoraMode) }
  else r

/-- `init_radio`'s last line. -/
def noteLoraMode (r : SX127xRadio) : SX127xRadio :=
  { r with rdoStngsApplied := Function.update r.rdoStngsApplied .rdoLoraMode 1 }

def initRadio (r : SX127xRadio) : SX127xRadio :=
  let r := r.pinReset t
  let r := r.resetRdoStngs
  let r := r.validateChip
  let r := r.writeOpMode .sleep
  let r := r.set t .rdoLoraMode 1
  let r := r.writeSleepStngs
  let r := r.writeOpMode .stby
  r.noteLoraMode

end SX127xRadio
