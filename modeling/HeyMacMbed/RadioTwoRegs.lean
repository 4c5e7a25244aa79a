import HeyMacMbed.RadioShadow

/-!
# Settings of two registers

`set` splits a preamble length or a reception timeout over two slots of the
settings array. The first slot's row in the table describes its bits, the
second slot's row says that it has none, and the mask that `write_stngs` computes
from that row shifts a 32-bit word by 32.
-/

open Bits Octets Fields RadioCall

/-- The chip resets the first registers of both settings as the table says. -/
structure Target.ResetsMsb (t : Target) : Prop where
  preamble : t.hwreset regLoraPreambleLen = 0x00
  tmout : ((stngsInfoLut .loraRxTmout).field.read t.hwreset).toNat = 0

/-- A chip that resets the second registers as the table says, too. -/
def Target.table : Target where
  hwreset := Function.update (Function.update Target.plain.hwreset regLoraPreambleLenLsb 0x08)
    regLoraRxSymTmout 0x64
  hwreset_stngs := by decide
  hwreset_ifFreq2 := rfl
  shrUndef := 0

namespace SX127xRadio

/-- The shift in `BIT_FLD` for the row of a field. -/
def maskShift (fld : Fld) : Int :=
  31 - ((stngsInfoLut fld).bitStart + (stngsInfoLut fld).bitCnt - 1 : Int)

/-- No mask that `write_stngs` computes, one for each outstanding field, shifts a 32-bit
word by 32 or more. -/
def NoWideShift (r : SX127xRadio) : Prop :=
  ∀ fld, r.rdoStngs fld ≠ r.rdoStngsApplied fld → maskShift fld < 32

/-- Nothing is outstanding in the second slots. -/
def SecondsIdle (r : SX127xRadio) : Prop :=
  r.rdoStngs .loraRxTmout2 = r.rdoStngsApplied .loraRxTmout2 ∧
    r.rdoStngs .loraPreambleLen2 = r.rdoStngsApplied .loraPreambleLen2

theorem maskShift_wide : ∀ fld,
    32 ≤ maskShift fld ↔ fld = .loraRxTmout2 ∨ fld = .loraPreambleLen2 := by decide

theorem noWideShift_iff (r : SX127xRadio) : r.NoWideShift ↔ r.SecondsIdle := by
  constructor
  · intro h
    constructor
    · by_contra hne
      exact absurd (h .loraRxTmout2 hne) (by decide)
    · by_contra hne
      exact absurd (h .loraPreambleLen2 hne) (by decide)
  · rintro ⟨ht, hp⟩ fld hne
    by_contra hwide
    rcases (maskShift_wide fld).mp (not_lt.mp hwide) with rfl | rfl
    · exact hne ht
    · exact hne hp

/-- The first registers hold what is noted for them. -/
structure MsbHeld (r : SX127xRadio) : Prop where
  preamble : r.chip.regs regLoraPreambleLen = r.rdoStngsApplied .loraPreambleLen
  tmout : r.Held .loraRxTmout

theorem preamble_own : ∀ g,
    (stngsInfoLut .loraPreambleLen).regStart = (stngsInfoLut g).regStart →
      g = .loraPreambleLen := by decide

theorem writeStngs_msbHeld (t : Target) {r : SX127xRadio} (forRx : Bool) (h : r.MsbHeld) :
    (r.writeStngs t forRx).MsbHeld := by
  have hbefore : ∀ a, a ∈ [regLoraPreambleLen, regLoraCfg2] →
      (r.beforeFlds forRx).chip.regs a = r.chip.regs a := by
    intro a ha
    apply beforeFlds_regs_other
    rcases List.mem_pair.mp ha with rfl | rfl <;> decide
  constructor
  · have hown := writeFlds_own (r.beforeFlds forRx) t .loraPreambleLen
      (Fld.mem_all .loraPreambleLen) preamble_own (bitf_whole t _ (by decide)) rfl
    have hreg : (stngsInfoLut .loraPreambleLen).regStart = regLoraPreambleLen := rfl
    rw [hreg, beforeFlds_rdoStngs, beforeFlds_applied, hbefore _ (by decide)] at hown
    rw [writeStngs_applied, writeStngs_eq, hown]
    split
    · rfl
    · rename_i hidle
      rw [not_not.mp hidle]
      exact h.preamble
  · rw [writeStngs_eq]
    refine writeFlds_held t _ (by decide) _ ⟨?_, ?_⟩
    · rw [chipVal_congr (hbefore regLoraCfg2 (by decide)), beforeFlds_applied]
      exact h.tmout.applied
    · rw [beforeFlds_rdoStngs]
      exact h.tmout.fits

/-- A call that keeps the first registers and what is noted for them. -/
theorem MsbHeld.of_kept {r r' : SX127xRadio} (h : r.MsbHeld)
    (hregs : ∀ a, a ∈ [regLoraPreambleLen, regLoraCfg2] → r'.chip.regs a = r.chip.regs a)
    (happ : ∀ fld, fld ≠ .rdoLoraMode → r'.rdoStngsApplied fld = r.rdoStngsApplied fld)
    (hfit : (r'.rdoStngs .loraRxTmout).toNat < 4) : r'.MsbHeld := by
  refine ⟨?_, ?_, hfit⟩
  · rw [hregs _ (by decide), happ _ (by decide)]
    exact h.preamble
  · rw [chipVal_congr (hregs regLoraCfg2 (by decide)), happ _ (by decide)]
    exact h.tmout.applied

/-- The two octets `set` makes of a value. -/
theorem split_octets (v : BitVec 32) :
    ((v >>> 8 &&& 0xFF).setWidth 8 : Octet).toNat = v.toNat / 256 % 256 ∧
      ((v >>> 0 &&& 0xFF).setWidth 8 : Octet) = v.setWidth 8 := by
  constructor
  · exact octetAt_toNat v 8
  · apply BitVec.eq_of_toNat_eq
    rw [octetAt_toNat, Nat.pow_zero, Nat.div_one, BitVec.toNat_setWidth]

theorem set_tmout {r : SX127xRadio} (t : Target) {w : BitVec 32}
    (hw : InBounds .loraRxTmout w) :
    (r.set t .loraRxTmout w).rdoStngs =
      Function.update (Function.update r.rdoStngs .loraRxTmout ((w >>> 8 &&& 0xFF).setWidth 8))
        .loraRxTmout2 (w.setWidth 8) := by
  rw [set, if_pos hw, ← (split_octets w).2]
  rfl

theorem set_preamble {r : SX127xRadio} (t : Target) {v : BitVec 32}
    (hv : InBounds .loraPreambleLen v) :
    (r.set t .loraPreambleLen v).rdoStngs =
      Function.update (Function.update r.rdoStngs .loraPreambleLen
        ((v >>> 8 &&& 0xFF).setWidth 8)) .loraPreambleLen2 (v.setWidth 8) := by
  rw [set, if_pos hv, ← (split_octets v).2]
  rfl

theorem set_msbHeld (t : Target) {r : SX127xRadio} (fld : Fld) (val : BitVec 32)
    (h : r.MsbHeld) : (r.set t fld val).MsbHeld := by
  refine h.of_kept (fun a _ => by rw [set_chip]) (fun g _ => by rw [set_applied]) ?_
  by_cases hb : InBounds fld val
  · by_cases hfld : fld = .loraRxTmout
    · subst hfld
      have hmax : val.toNat ≤ 1023 := BitVec.le_def.mp hb.2
      rw [set_tmout t hb, Function.update_of_ne (by decide), Function.update_self,
        (split_octets val).1]
      omega
    · rw [set_other t (by decide) (Ne.symm hfld)]
      exact h.tmout.fits
  · have hkept : r.set t fld val = r := if_neg hb
    rw [hkept]
    exact h.tmout.fits

theorem initRadio_msbHeld {t : Target} (ht : t.ResetsMsb) (r : SX127xRadio) :
    (r.initRadio t).MsbHeld := by
  refine ⟨?_, ?_, ?_⟩
  · rw [initRadio_regs_other t (by decide), initRadio_applied_other t (by decide), ht.preamble]
    rfl
  · have hread : (r.initRadio t).chipVal .loraRxTmout =
        ((stngsInfoLut .loraRxTmout).field.read t.hwreset).toNat := by
      simp only [chipVal, BitField.read]
      rw [show (fieldOf .loraRxTmout).reg = regLoraCfg2 from rfl,
        initRadio_regs_other t (by decide)]
      rfl
    rw [hread, ht.tmout, initRadio_applied_other t (by decide)]
    rfl
  · rw [initRadio_rdoStngs_other t (by decide) (by decide)]
    decide

theorem exec_msbHeld {t : Target} (ht : t.ResetsMsb) {r : SX127xRadio} (c : RadioCall)
    (h : r.MsbHeld) : (c.exec t r).MsbHeld := by
  have hkept : c ≠ .initRadio → (∀ forRx, c ≠ .writeStngs forRx) →
      (c.exec t r).rdoStngs = r.rdoStngs → (c.exec t r).MsbHeld := by
    intro hinit hwrite hst
    refine h.of_kept (fun a ha => exec_regs_other t r hinit hwrite ?_)
      (fun fld hf => exec_applied_other t r hinit hwrite hf) ?_
    · rcases List.mem_pair.mp ha with rfl | rfl <;> decide
    · rw [hst]
      exact h.tmout.fits
  cases c with
  | initRadio =>
    rw [exec]
    exact initRadio_msbHeld ht r
  | writeStngs forRx =>
    rw [exec]
    exact writeStngs_msbHeld t forRx h
  | set fld val =>
    rw [exec]
    exact set_msbHeld t fld val h
  | writeSleepStngs =>
    exact hkept (by intro e; cases e) (by intro b e; cases e) (writeSleepStngs_rdoStngs r)
  | _ => exact hkept (by intro e; cases e) (by intro b e; cases e) (by rw [exec]; rfl)

theorem run_msbHeld {t : Target} (ht : t.ResetsMsb) {r : SX127xRadio} (calls : List RadioCall)
    (h : r.MsbHeld) : (run t r calls).MsbHeld :=
  run_invariant t (fun _ c _ h => exec_msbHeld ht c h) h

/-! What reaches the chip. -/

/-- The registers of the preamble length, MSB first. -/
def preambleRegs (r : SX127xRadio) : Nat :=
  (r.chip.regs regLoraPreambleLen).toNat * 256 + (r.chip.regs regLoraPreambleLenLsb).toNat

/-- The low two bits of `REG_LORA_CFG2` and `REG_LORA_RX_SYM_TMOUT`. -/
def tmoutRegs (r : SX127xRadio) : Nat :=
  r.chipVal .loraRxTmout * 256 + (r.chip.regs regLoraRxSymTmout).toNat

/-- The bit of `REG_LORA_CFG2` that is no field's. -/
def cfg2Spare : BitField RegAddr := ⟨regLoraCfg2, 3, 1⟩

structure PreambleWhole (t : Target) (r : SX127xRadio) (v : BitVec 32) (forRx : Bool) : Prop where
  value : ((r.set t .loraPreambleLen v).writeStngs t forRx).preambleRegs = v.toNat
  shifts : (r.set t .loraPreambleLen v).NoWideShift

structure TmoutWhole (t : Target) (r : SX127xRadio) (w : BitVec 32) (forRx : Bool) : Prop where
  value : ((r.set t .loraRxTmout w).writeStngs t forRx).tmoutRegs = w.toNat
  sf : ((r.set t .loraRxTmout w).writeStngs t forRx).chipVal .loraSf = (r.rdoStngs .loraSf).toNat
  crcEn : ((r.set t .loraRxTmout w).writeStngs t forRx).chipVal .loraCrcEn =
    (r.rdoStngs .loraCrcEn).toNat
  spare : cfg2Spare.read ((r.set t .loraRxTmout w).writeStngs t forRx).chip.regs =
    cfg2Spare.read r.chip.regs
  shifts : (r.set t .loraRxTmout w).NoWideShift

/-- Nothing has to go to a second register: the other setting's slot is written, this
setting's will be, and its register holds the octet already. -/
structure PreambleReady (r : SX127xRadio) (v : BitVec 32) : Prop where
  other : r.rdoStngs .loraRxTmout2 = r.rdoStngsApplied .loraRxTmout2
  same : v.setWidth 8 = r.rdoStngsApplied .loraPreambleLen2
  there : r.chip.regs regLoraPreambleLenLsb = v.setWidth 8

structure TmoutReady (r : SX127xRadio) (w : BitVec 32) : Prop where
  other : r.rdoStngs .loraPreambleLen2 = r.rdoStngsApplied .loraPreambleLen2
  same : w.setWidth 8 = r.rdoStngsApplied .loraRxTmout2
  there : r.chip.regs regLoraRxSymTmout = w.setWidth 8

/-- With the first octet there, the value is whole just if the second is. -/
theorem whole_iff {m : Nat} {l : Octet} {v : BitVec 32} (hm : m = v.toNat / 256 % 256)
    (hv : v.toNat < 65536) : m * 256 + l.toNat = v.toNat ↔ l = v.setWidth 8 := by
  rw [← BitVec.toNat_inj, BitVec.toNat_setWidth]
  omega

theorem set_preamble_idle (t : Target) (r : SX127xRadio) {v : BitVec 32}
    (hv : InBounds .loraPreambleLen v) : (r.set t .loraPreambleLen v).SecondsIdle ↔
      r.rdoStngs .loraRxTmout2 = r.rdoStngsApplied .loraRxTmout2 ∧
        v.setWidth 8 = r.rdoStngsApplied .loraPreambleLen2 := by
  rw [SecondsIdle, set_applied, set_preamble t hv, Function.update_self,
    Function.update_of_ne (by decide), Function.update_of_ne (by decide)]

theorem set_tmout_idle (t : Target) (r : SX127xRadio) {w : BitVec 32}
    (hw : InBounds .loraRxTmout w) : (r.set t .loraRxTmout w).SecondsIdle ↔
      w.setWidth 8 = r.rdoStngsApplied .loraRxTmout2 ∧
        r.rdoStngs .loraPreambleLen2 = r.rdoStngsApplied .loraPreambleLen2 := by
  rw [SecondsIdle, set_applied, set_tmout t hw, Function.update_self,
    Function.update_of_ne (by decide), Function.update_of_ne (by decide)]

theorem lsb_own : ∀ fld,
    (regLoraPreambleLenLsb = (stngsInfoLut fld).regStart → fld = .loraPreambleLen2) ∧
      (regLoraRxSymTmout = (stngsInfoLut fld).regStart → fld = .loraRxTmout2) := by decide

/-- With nothing outstanding in the second slots their registers stay as they are. -/
theorem writeStngs_lsbs (t : Target) {r : SX127xRadio} (forRx : Bool) (h : r.SecondsIdle) :
    (r.writeStngs t forRx).chip.regs regLoraPreambleLenLsb = r.chip.regs regLoraPreambleLenLsb ∧
      (r.writeStngs t forRx).chip.regs regLoraRxSymTmout = r.chip.regs regLoraRxSymTmout := by
  constructor
  · apply writeStngs_regs_idle r t forRx (by decide)
    intro fld hfld
    rw [(lsb_own fld).1 hfld]
    exact h.2
  · apply writeStngs_regs_idle r t forRx (by decide)
    intro fld hfld
    rw [(lsb_own fld).2 hfld]
    exact h.1

theorem preambleWhole_iff (t : Target) {r : SX127xRadio} (h : r.MsbHeld) {v : BitVec 32}
    (hv : InBounds .loraPreambleLen v) (forRx : Bool) :
    PreambleWhole t r v forRx ↔ r.PreambleReady v := by
  have hmax : v.toNat ≤ 65535 := BitVec.le_def.mp hv.2
  have hmsb : (((r.set t .loraPreambleLen v).writeStngs t forRx).chip.regs
      regLoraPreambleLen).toNat = v.toNat / 256 % 256 := by
    have hheld := writeStngs_msbHeld t forRx (set_msbHeld t .loraPreambleLen v h)
    rw [hheld.preamble, writeStngs_applied, set_preamble t hv,
      Function.update_of_ne (by decide), Function.update_self, (split_octets v).1]
  have hvalue : (r.set t .loraPreambleLen v).SecondsIdle →
      (((r.set t .loraPreambleLen v).writeStngs t forRx).preambleRegs = v.toNat ↔
        r.chip.regs regLoraPreambleLenLsb = v.setWidth 8) := by
    intro hidle
    rw [preambleRegs, whole_iff hmsb (by omega), (writeStngs_lsbs t forRx hidle).1, set_chip]
  constructor
  · rintro ⟨hval, hshift⟩
    have hidle := (noWideShift_iff _).mp hshift
    obtain ⟨hother, hsame⟩ := (set_preamble_idle t r hv).mp hidle
    exact ⟨hother, hsame, (hvalue hidle).mp hval⟩
  · rintro ⟨hother, hsame, hthere⟩
    have hidle := (set_preamble_idle t r hv).mpr ⟨hother, hsame⟩
    exact ⟨(hvalue hidle).mpr hthere, (noWideShift_iff _).mpr hidle⟩

theorem cfg2Spare_apart : ∀ fld, (fieldOf fld).Apart cfg2Spare ∧
    ((stngsInfoLut fld).regCnt = 0 → (fieldOf fld).reg ≠ cfg2Spare.reg) := by decide

theorem tmoutWhole_iff (t : Target) {r : SX127xRadio} (h : r.MsbHeld) (hcoh : r.Coherent)
    {w : BitVec 32} (hw : InBounds .loraRxTmout w) (forRx : Bool) :
    TmoutWhole t r w forRx ↔ r.TmoutReady w := by
  have hmax : w.toNat ≤ 1023 := BitVec.le_def.mp hw.2
  have hmsb : ((r.set t .loraRxTmout w).writeStngs t forRx).chipVal .loraRxTmout =
      w.toNat / 256 % 256 := by
    have hheld := writeStngs_msbHeld t forRx (set_msbHeld t .loraRxTmout w h)
    rw [hheld.tmout.applied, writeStngs_applied, set_tmout t hw,
      Function.update_of_ne (by decide), Function.update_self, (split_octets w).1]
  have hvalue : (r.set t .loraRxTmout w).SecondsIdle →
      (((r.set t .loraRxTmout w).writeStngs t forRx).tmoutRegs = w.toNat ↔
        r.chip.regs regLoraRxSymTmout = w.setWidth 8) := by
    intro hidle
    rw [tmoutRegs, whole_iff hmsb (by omega), (writeStngs_lsbs t forRx hidle).2, set_chip]
  -- the other fields of the register are written or kept as everywhere
  have hfield : ∀ fld, Single fld → fld ≠ .loraRxTmout →
      ((r.set t .loraRxTmout w).writeStngs t forRx).chipVal fld = (r.rdoStngs fld).toNat := by
    intro fld hf hne
    have hafter := writeStngs_coherent t forRx (set_coherent t hw hcoh)
    rw [hafter.applied fld hf, writeStngs_applied,
      set_other t (single_within fld hf).1 hne]
  have hspare : cfg2Spare.read ((r.set t .loraRxTmout w).writeStngs t forRx).chip.regs =
      cfg2Spare.read r.chip.regs := by
    rw [writeStngs_read_apart t forRx (by decide) (by decide) cfg2Spare_apart, set_chip]
  constructor
  · rintro ⟨hval, _, _, _, hshift⟩
    have hidle := (noWideShift_iff _).mp hshift
    obtain ⟨hsame, hother⟩ := (set_tmout_idle t r hw).mp hidle
    exact ⟨hother, hsame, (hvalue hidle).mp hval⟩
  · rintro ⟨hother, hsame, hthere⟩
    have hidle := (set_tmout_idle t r hw).mpr ⟨hsame, hother⟩
    exact ⟨(hvalue hidle).mpr hthere, hfield .loraSf (by decide) (by decide),
      hfield .loraCrcEn (by decide) (by decide), hspare, (noWideShift_iff _).mpr hidle⟩

/-- After `init_radio` and any accepted calls, a value of two registers reaches the chip
whole and without a wide shift just if nothing has to go to a second register. -/
theorem two_regs_whole_iff {t : Target} (ht : t.ResetsMsb) (r : SX127xRadio)
    (calls : List RadioCall) (hc : ∀ c ∈ calls, c.Accepted) (v w : BitVec 32)
    (hv : InBounds .loraPreambleLen v) (hw : InBounds .loraRxTmout w) (forRx : Bool) :
    (PreambleWhole t (run t r (.initRadio :: calls)) v forRx ↔
        (run t r (.initRadio :: calls)).PreambleReady v) ∧
      (TmoutWhole t (run t r (.initRadio :: calls)) w forRx ↔
        (run t r (.initRadio :: calls)).TmoutReady w) := by
  have hheld : (run t r (.initRadio :: calls)).MsbHeld :=
    run_msbHeld (r := r.initRadio t) ht calls (initRadio_msbHeld ht r)
  have hcoh : (run t r (.initRadio :: calls)).Coherent :=
    run_coherent (r := r.initRadio t) t hc (initRadio_coherent t)
  constructor
  · exact preambleWhole_iff t hheld hv forRx
  · exact tmoutWhole_iff t hheld hcoh hw forRx

/-- Values whose first octets are new to the chip and whose last ones it has had since
its reset. -/
theorem two_regs_whole_msbs :
    PreambleWhole .table (run .table zeroed [.initRadio, .writeStngs false]) 0x0108 true ∧
      TmoutWhole .table (run .table zeroed [.initRadio, .writeStngs false]) 0x0164 true := by
  have hwhole := two_regs_whole_iff (t := .table) ⟨by decide, by decide⟩ zeroed
    [.writeStngs false] (by decide) 0x0108 0x0164 (by decide) (by decide) true
  have hpreamble : (run .table zeroed [.initRadio, .writeStngs false]).PreambleReady 0x0108 :=
    ⟨by decide +kernel, by decide +kernel, by decide +kernel⟩
  have htmout : (run .table zeroed [.initRadio, .writeStngs false]).TmoutReady 0x0164 :=
    ⟨by decide +kernel, by decide +kernel, by decide +kernel⟩
  exact ⟨hwhole.1.mpr hpreamble, hwhole.2.mpr htmout⟩

/-- A preamble of 10 symbols and a timeout of 5: the second slots are to be written, the
shift in their masks is by 32, and their registers keep the reset values while the new
ones are noted as written. -/
theorem lsbs_lost :
    let r := run .table zeroed [.initRadio, .set .loraPreambleLen 10, .set .loraRxTmout 5]
    InBounds .loraPreambleLen 10 ∧ InBounds .loraRxTmout 5 ∧
      maskShift .loraPreambleLen2 = 32 ∧ maskShift .loraRxTmout2 = 32 ∧
      (r.writeStngs .table true).preambleRegs = 8 ∧ (r.writeStngs .table true).tmoutRegs = 100 ∧
      (r.writeStngs .table true).rdoStngsApplied .loraPreambleLen2 = 10 ∧
      (r.writeStngs .table true).rdoStngsApplied .loraRxTmout2 = 5 ∧
      ¬ PreambleWhole .table (run .table zeroed [.initRadio]) 10 true ∧
      ¬ TmoutWhole .table (run .table zeroed [.initRadio]) 5 true := by
  intro r
  have hpre : ¬ PreambleWhole .table (run .table zeroed [.initRadio]) 10 true := by
    intro h
    have hne : ((run .table zeroed [.initRadio, .set .loraPreambleLen 10]).writeStngs .table
        true).preambleRegs ≠ (10 : BitVec 32).toNat := by decide +kernel
    exact hne h.value
  have htmo : ¬ TmoutWhole .table (run .table zeroed [.initRadio]) 5 true := by
    intro h
    have hne : ((run .table zeroed [.initRadio, .set .loraRxTmout 5]).writeStngs .table
        true).tmoutRegs ≠ (5 : BitVec 32).toNat := by decide +kernel
    exact hne h.value
  exact ⟨by decide, by decide, by decide, by decide, by decide +kernel, by decide +kernel,
    by decide +kernel, by decide +kernel, hpre, htmo⟩

end SX127xRadio
