import HeyMacMbed.RadioShadow

/-!
# The carrier frequency

`write_stngs` puts a frequency in Hz into three octets and remembers it in a
shadow of its own. The first section says which frequencies these octets tell
apart, the second when the shadow is right about the registers: nobody
initialises it, and a reset of the chip does not reset it.
-/

open Bits Octets Fields RadioCall

namespace SX127xRadio

/-! What the registers hold after `write_stngs`. -/

/-- The three frequency registers. -/
def freqRegs (r : SX127xRadio) : Octet × Octet × Octet :=
  (r.chip.regs 0x06, r.chip.regs 0x07, r.chip.regs 0x08)

/-- The frequency `write_stngs` is to apply. -/
def carrier (r : SX127xRadio) (forRx : Bool) : BitVec 32 := (r.errata forRx).1

/-- The frequency has a slot in the settings array too. Nothing is ever asked for in it,
but before the first `init_radio` it holds whatever the memory held. -/
def slotOutstanding (r : SX127xRadio) : Prop :=
  r.rdoStngs .rdoFreqHz ≠ r.rdoStngsApplied .rdoFreqHz

instance (r : SX127xRadio) : Decidable r.slotOutstanding :=
  inferInstanceAs (Decidable (_ ≠ _))

/-- The registers after the settings loop, if they were `x` before it. -/
def slotInto (r : SX127xRadio) (x : Octet × Octet × Octet) : Octet × Octet × Octet :=
  if r.slotOutstanding then (r.rdoStngs .rdoFreqHz, x.2) else x

theorem freqSlot_own : ∀ g, (stngsInfoLut .rdoFreqHz).regStart = (stngsInfoLut g).regStart →
    g = .rdoFreqHz := by decide

theorem regStart_not_freq : ∀ fld, (0x07 : RegAddr) ≠ (stngsInfoLut fld).regStart ∧
    (0x08 : RegAddr) ≠ (stngsInfoLut fld).regStart := by decide

/-- The frequency registers after `write_stngs`. -/
theorem writeStngs_freqRegs (t : Target) (r : SX127xRadio) (forRx : Bool) :
    (r.writeStngs t forRx).freqRegs = r.slotInto
      (if r.carrier forRx ≠ r.rdoStngsFreqApplied then freqOctets (r.carrier forRx)
        else r.freqRegs) := by
  have hcarrier : (r.errata forRx).1 = r.carrier forRx := rfl
  have hbefore : (r.beforeFlds forRx).freqRegs =
      if r.carrier forRx ≠ r.rdoStngsFreqApplied then freqOctets (r.carrier forRx)
      else r.freqRegs := by
    have herrata : ∀ a, a ∉ [regLoraIfFreq2, regLoraDtctOptmz] →
        (if r.ErrataOutstanding then r.writeErrata (r.errata forRx).2.1 (r.errata forRx).2.2
          else r).chip.regs a = r.chip.regs a := by
      intro a ha
      simp only [List.mem_cons, List.not_mem_nil, or_false, not_or] at ha
      split
      · rw [writeErrata_regs, Function.update_of_ne ha.2, Function.update_of_ne ha.1]
      · rfl
    have happlied : (if r.ErrataOutstanding then
        r.writeErrata (r.errata forRx).2.1 (r.errata forRx).2.2 else r).rdoStngsFreqApplied =
        r.rdoStngsFreqApplied := by
      split <;> rfl
    rw [freqRegs, beforeFlds, writeFreq_regs, happlied, hcarrier]
    by_cases hne : r.carrier forRx ≠ r.rdoStngsFreqApplied
    · rw [if_pos hne, if_pos hne]
      rfl
    · rw [if_neg hne, if_neg hne, herrata _ (by decide), herrata _ (by decide),
        herrata _ (by decide)]
      rfl
  have hown := writeFlds_own (r.beforeFlds forRx) t .rdoFreqHz (Fld.mem_all .rdoFreqHz)
    freqSlot_own (bitf_whole t _ (by decide)) rfl
  have hreg : (stngsInfoLut .rdoFreqHz).regStart = (0x06 : RegAddr) := rfl
  rw [hreg, beforeFlds_rdoStngs, beforeFlds_applied] at hown
  rw [writeStngs_eq, ← hbefore, freqRegs, hown,
    writeFlds_regs_other _ t _ fun fld => (regStart_not_freq fld).1,
    writeFlds_regs_other _ t _ fun fld => (regStart_not_freq fld).2, slotInto]
  by_cases hs : r.rdoStngs .rdoFreqHz ≠ r.rdoStngsApplied .rdoFreqHz
  · have hslot : r.slotOutstanding := hs
    rw [if_pos hs, if_pos hslot]
    rfl
  · have hslot : ¬ r.slotOutstanding := hs
    rw [if_neg hs, if_neg hslot]
    rfl

/-! Which carriers the octets tell apart. -/

/-- The rejection offset of errata 2.3, when it applies. -/
def rejectionOffset (r : SX127xRadio) (forRx : Bool) : BitVec 32 :=
  if forRx ∧ r.rdoStngs .rdoLoraMode ≠ 0 ∧ r.rdoStngs .loraBw < stngLoraBw500k then
    (freqInfo (r.rdoStngs .loraBw)).1
  else 0

/-- The carrier meant, in Hz. -/
def carrierHz (r : SX127xRadio) (forRx : Bool) : Nat :=
  r.rdoStngsFreq.toNat + (r.rejectionOffset forRx).toNat

theorem carrier_eq (r : SX127xRadio) (forRx : Bool) :
    r.carrier forRx = r.rdoStngsFreq + r.rejectionOffset forRx := by
  unfold carrier errata rejectionOffset
  by_cases hrx : forRx = true ∧ r.rdoStngs .rdoLoraMode ≠ 0
  · by_cases hbw : r.rdoStngs .loraBw ≥ stngLoraBw500k
    · have hlt : ¬ r.rdoStngs .loraBw < stngLoraBw500k := BitVec.not_lt.mpr hbw
      rw [if_pos hrx, if_pos hbw, if_neg fun h => hlt h.2.2]
      simp
    · have hlt : r.rdoStngs .loraBw < stngLoraBw500k := BitVec.not_le.mp hbw
      rw [if_pos hrx, if_neg hbw, if_pos ⟨hrx.1, hrx.2, hlt⟩]
  · have hno : ¬ (forRx = true ∧ r.rdoStngs .rdoLoraMode ≠ 0 ∧
        r.rdoStngs .loraBw < stngLoraBw500k) := fun h => hrx ⟨h.1, h.2.1⟩
    rw [if_neg hrx, if_neg hno]
    simp

theorem freqInfo_le : ∀ bw : Octet, (freqInfo bw).1.toNat ≤ 41670 := by decide

/-- Adding the offset to a frequency within bounds does not overflow. -/
theorem carrier_toNat (r : SX127xRadio) (forRx : Bool)
    (hf : InBounds .rdoFreqHz r.rdoStngsFreq) :
    (r.carrier forRx).toNat = r.carrierHz forRx := by
  have hmax : r.rdoStngsFreq.toNat ≤ 1020000000 := BitVec.le_def.mp hf.2
  have hoff : (r.rejectionOffset forRx).toNat ≤ 41670 := by
    unfold rejectionOffset
    split
    · exact freqInfo_le _
    · simp
  rw [carrier_eq, carrierHz, BitVec.toNat_add]
  exact Nat.mod_eq_of_lt (by omega)

/-- The octets are those of the frequency modulo 2^24. -/
theorem freqOctets_eq_iff (x y : BitVec 32) :
    freqOctets x = freqOctets y ↔ x.toNat % 2 ^ 24 = y.toNat % 2 ^ 24 := by
  rw [freqOctets, freqOctets, Prod.mk.injEq, Prod.mk.injEq, ← BitVec.toNat_inj,
    ← BitVec.toNat_inj, ← BitVec.toNat_inj]
  simp only [octetAt_toNat]
  omega

/-- The call writes the frequency registers, with nothing but the carrier. -/
def WritesFreq (r : SX127xRadio) (forRx : Bool) : Prop :=
  r.carrier forRx ≠ r.rdoStngsFreqApplied ∧ ¬ r.slotOutstanding

theorem WritesFreq.freqRegs {r : SX127xRadio} {forRx : Bool} (h : r.WritesFreq forRx)
    (t : Target) : (r.writeStngs t forRx).freqRegs = freqOctets (r.carrier forRx) := by
  rw [writeStngs_freqRegs, slotInto, if_neg h.2, if_pos h.1]

/-- The carriers of two calls are computed without overflow and told apart by the octets
the calls write. -/
def ToldApart (t : Target) (r r' : SX127xRadio) (forRx forRx' : Bool) : Prop :=
  (r.carrier forRx).toNat = r.carrierHz forRx ∧ (r'.carrier forRx').toNat = r'.carrierHz forRx' ∧
    ((r.writeStngs t forRx).freqRegs = (r'.writeStngs t forRx').freqRegs →
      r.carrier forRx = r'.carrier forRx')

theorem toldApart_of_writes (t : Target) {r r' : SX127xRadio} {forRx forRx' : Bool}
    (hf : InBounds .rdoFreqHz r.rdoStngsFreq) (hf' : InBounds .rdoFreqHz r'.rdoStngsFreq)
    (hw : r.WritesFreq forRx) (hw' : r'.WritesFreq forRx') :
    ToldApart t r r' forRx forRx' ↔ ¬ (r.carrierHz forRx ≠ r'.carrierHz forRx' ∧
      r.carrierHz forRx % 2 ^ 24 = r'.carrierHz forRx' % 2 ^ 24) := by
  have hc := r.carrier_toNat forRx hf
  have hc' := r'.carrier_toNat forRx' hf'
  have hsame : (r.writeStngs t forRx).freqRegs = (r'.writeStngs t forRx').freqRegs ↔
      r.carrierHz forRx % 2 ^ 24 = r'.carrierHz forRx' % 2 ^ 24 := by
    rw [hw.freqRegs t, hw'.freqRegs t, freqOctets_eq_iff, hc, hc']
  have heq : r.carrier forRx = r'.carrier forRx' ↔
      r.carrierHz forRx = r'.carrierHz forRx' := by
    rw [← BitVec.toNat_inj, hc, hc']
  constructor
  · rintro ⟨_, _, htold⟩ ⟨hne, hmod⟩
    exact hne (heq.mp (htold (hsame.mpr hmod)))
  · intro hno
    refine ⟨hc, hc', fun hregs => heq.mpr ?_⟩
    by_contra hne
    exact hno ⟨hne, hsame.mp hregs⟩

/-- Besides `init_radio` nothing asks for anything in the frequency's slot. -/
theorem exec_slot (t : Target) (r : SX127xRadio) {c : RadioCall} (hinit : c ≠ .initRadio) :
    (c.exec t r).rdoStngs .rdoFreqHz = r.rdoStngs .rdoFreqHz := by
  cases c with
  | initRadio => exact absurd rfl hinit
  | set fld val =>
    rw [exec]
    by_cases hfld : fld = .rdoFreqHz
    · subst hfld
      unfold SX127xRadio.set
      split <;> rfl
    · exact set_other t (by decide) (Ne.symm hfld)
  | writeStngs forRx => rw [exec, writeStngs_rdoStngs]
  | writeSleepStngs => rw [exec, writeSleepStngs_rdoStngs]
  | _ => rfl

theorem writeStngs_slot_idle (t : Target) (r : SX127xRadio) (forRx : Bool) :
    ¬ (r.writeStngs t forRx).slotOutstanding := by
  apply not_not.mpr
  rw [writeStngs_rdoStngs, writeStngs_applied]

theorem initRadio_slot_idle (t : Target) (r : SX127xRadio) :
    ¬ (r.initRadio t).slotOutstanding := by
  apply not_not.mpr
  rw [initRadio_rdoStngs_other t (by decide) (by decide), initRadio_applied_other t (by decide)]

theorem exec_slot_idle (t : Target) {r : SX127xRadio} (c : RadioCall)
    (h : ¬ r.slotOutstanding) : ¬ (c.exec t r).slotOutstanding := by
  by_cases hinit : c = .initRadio
  · subst hinit
    exact initRadio_slot_idle t r
  · by_cases hwrite : ∃ forRx, c = .writeStngs forRx
    · obtain ⟨forRx, rfl⟩ := hwrite
      exact writeStngs_slot_idle t r forRx
    · rw [slotOutstanding, exec_slot t r hinit,
        exec_applied_other t r hinit (fun forRx e => hwrite ⟨forRx, e⟩) (by decide)]
      exact h

/-- After `init_radio` nothing is ever asked for in the frequency's slot. -/
theorem run_slot_idle (t : Target) (r : SX127xRadio) (calls : List RadioCall) :
    ¬ (run t r (.initRadio :: calls)).slotOutstanding := by
  have hrun : ¬ (run t (r.initRadio t) calls).slotOutstanding :=
    run_invariant t (I := fun r => ¬ r.slotOutstanding) (fun _ c _ h => exec_slot_idle t c h)
      (initRadio_slot_idle t r)
  exact hrun

/-- After `init_radio` and any calls on two drivers, the carriers that a `write_stngs` on
each writes are told apart just if they do not differ by a multiple of 2^24 Hz. -/
theorem toldApart_iff (t : Target) (r r' : SX127xRadio) (calls calls' : List RadioCall)
    (forRx forRx' : Bool)
    (hf : InBounds .rdoFreqHz (run t r (.initRadio :: calls)).rdoStngsFreq)
    (hf' : InBounds .rdoFreqHz (run t r' (.initRadio :: calls')).rdoStngsFreq)
    (hw : (run t r (.initRadio :: calls)).carrier forRx ≠
      (run t r (.initRadio :: calls)).rdoStngsFreqApplied)
    (hw' : (run t r' (.initRadio :: calls')).carrier forRx' ≠
      (run t r' (.initRadio :: calls')).rdoStngsFreqApplied) :
    ToldApart t (run t r (.initRadio :: calls)) (run t r' (.initRadio :: calls')) forRx forRx' ↔
      ¬ ((run t r (.initRadio :: calls)).carrierHz forRx ≠
          (run t r' (.initRadio :: calls')).carrierHz forRx' ∧
        (run t r (.initRadio :: calls)).carrierHz forRx % 2 ^ 24 =
          (run t r' (.initRadio :: calls')).carrierHz forRx' % 2 ^ 24) :=
  toldApart_of_writes t hf hf' ⟨hw, run_slot_idle t r calls⟩ ⟨hw', run_slot_idle t r' calls'⟩

/-- Two frequencies within the band, one MHz apart. -/
theorem toldApart_mhz :
    let r := fun f => run .plain zeroed [.initRadio, .set .rdoFreqHz f]
    ToldApart .plain (r 433000000) (r 434000000) true false ↔
      ¬ ((r 433000000).carrierHz true ≠ (r 434000000).carrierHz false ∧
        (r 433000000).carrierHz true % 2 ^ 24 = (r 434000000).carrierHz false % 2 ^ 24) := by
  intro r
  exact toldApart_iff .plain zeroed zeroed [.set .rdoFreqHz 433000000]
    [.set .rdoFreqHz 434000000] true false (by decide +kernel) (by decide +kernel)
    (by decide +kernel) (by decide +kernel)

/-- 434 MHz and 450.777216 MHz, both accepted by `set`, are the same three octets. -/
theorem carriers_collide :
    let r := fun f => run .plain zeroed [.initRadio, .set .rdoFreqHz f]
    InBounds .rdoFreqHz 434000000 ∧ InBounds .rdoFreqHz 450777216 ∧
      ((r 434000000).writeStngs .plain false).freqRegs = (0xDE, 0x50, 0x80) ∧
      ((r 450777216).writeStngs .plain false).freqRegs = (0xDE, 0x50, 0x80) ∧
      ¬ ToldApart .plain (r 434000000) (r 450777216) false false := by
  intro r
  have h1 : ((r 434000000).writeStngs .plain false).freqRegs = (0xDE, 0x50, 0x80) := by
    decide +kernel
  have h2 : ((r 450777216).writeStngs .plain false).freqRegs = (0xDE, 0x50, 0x80) := by
    decide +kernel
  refine ⟨by decide, by decide, h1, h2, ?_⟩
  rintro ⟨_, _, htold⟩
  have hsame : (r 434000000).carrier false = (r 450777216).carrier false :=
    htold (h1.trans h2.symm)
  have hne : (r 434000000).carrier false ≠ (r 450777216).carrier false := by decide +kernel
  exact hne hsame

/-! When the shadow is right. -/

/-- What has become of the frequency registers since the last reset of the memory or the
chip: left as they were, stored with a carrier, or stored with a carrier whose first octet
the settings loop then stored over. -/
inductive FreqFate where
  | left (x : Octet × Octet × Octet)
  | stored
  | spoilt
  deriving DecidableEq

/-- The frequency registers after a reset of the chip. -/
def hwresetFreq (t : Target) : Octet × Octet × Octet :=
  (t.hwreset 0x06, t.hwreset 0x07, t.hwreset 0x08)

def freqFateAfter (t : Target) (r : SX127xRadio) (f : FreqFate) : RadioCall → FreqFate
  | .initRadio => .left (hwresetFreq t)
  | .writeStngs forRx =>
    if r.carrier forRx ≠ r.rdoStngsFreqApplied then
      if r.slotOutstanding ∧ r.rdoStngs .rdoFreqHz ≠ (freqOctets (r.carrier forRx)).1 then .spoilt
      else .stored
    else f
  | _ => f

def freqFateFrom (t : Target) (r : SX127xRadio) (f : FreqFate) : List RadioCall → FreqFate
  | [] => f
  | c :: calls => freqFateFrom t (c.exec t r) (r.freqFateAfter t f c) calls

/-- The fate of the registers from construction on. What they are left with includes the
octet an outstanding slot has in store for the first of them. -/
def freqFate (t : Target) (r : SX127xRadio) (calls : List RadioCall) : FreqFate :=
  freqFateFrom t r (.left (r.slotInto r.freqRegs)) calls

/-- What each fate says about the registers. -/
def FreqInv (r : SX127xRadio) : FreqFate → Prop
  | .left x => r.slotInto r.freqRegs = x
  | .stored => ¬ r.slotOutstanding ∧ r.freqRegs = freqOctets r.rdoStngsFreqApplied
  | .spoilt => ¬ r.slotOutstanding ∧ r.freqRegs.1 ≠ (freqOctets r.rdoStngsFreqApplied).1

theorem slotInto_idle {r : SX127xRadio} (h : ¬ r.slotOutstanding)
    (x : Octet × Octet × Octet) : r.slotInto x = x := if_neg h

/-- The registers, their shadow and their slot are all that the fate is about. -/
theorem FreqInv.congr {r s : SX127xRadio} {f : FreqFate} (h : r.FreqInv f)
    (hregs : s.freqRegs = r.freqRegs) (happlied : s.rdoStngsFreqApplied = r.rdoStngsFreqApplied)
    (hslot : s.rdoStngs .rdoFreqHz = r.rdoStngs .rdoFreqHz)
    (hslot' : s.rdoStngsApplied .rdoFreqHz = r.rdoStngsApplied .rdoFreqHz) : s.FreqInv f := by
  have hout : s.slotOutstanding ↔ r.slotOutstanding := by
    rw [slotOutstanding, slotOutstanding, hslot, hslot']
  cases f with
  | left x =>
    have hinto : s.slotInto s.freqRegs = r.slotInto r.freqRegs := by
      simp only [slotInto, hout, hslot, hregs]
    exact hinto.trans h
  | stored => exact ⟨fun hs => h.1 (hout.mp hs), by rw [hregs, happlied]; exact h.2⟩
  | spoilt => exact ⟨fun hs => h.1 (hout.mp hs), by rw [hregs, happlied]; exact h.2⟩

theorem writeStngs_freqInv (t : Target) {r : SX127xRadio} {f : FreqFate} (forRx : Bool)
    (h : r.FreqInv f) :
    (r.writeStngs t forRx).FreqInv (r.freqFateAfter t f (.writeStngs forRx)) := by
  have hidle := writeStngs_slot_idle t r forRx
  have happlied : (r.writeStngs t forRx).rdoStngsFreqApplied = r.carrier forRx :=
    writeStngs_freqApplied r t forRx
  have hregs := writeStngs_freqRegs t r forRx
  rw [freqFateAfter]
  by_cases hne : r.carrier forRx ≠ r.rdoStngsFreqApplied
  · rw [if_pos hne]
    rw [if_pos hne] at hregs
    split
    · rename_i hspoilt
      refine ⟨hidle, ?_⟩
      rw [hregs, happlied, slotInto, if_pos hspoilt.1]
      exact hspoilt.2
    · rename_i hkept
      refine ⟨hidle, ?_⟩
      rw [hregs, happlied]
      by_cases hs : r.slotOutstanding
      · -- the slot stores the octet that is there already
        have hsame : r.rdoStngs .rdoFreqHz = (freqOctets (r.carrier forRx)).1 :=
          by_contra fun hdiff => hkept ⟨hs, hdiff⟩
        rw [slotInto, if_pos hs, hsame]
      · exact slotInto_idle hs _
  · rw [if_neg hne]
    rw [if_neg hne] at hregs
    have hshadow : (r.writeStngs t forRx).rdoStngsFreqApplied = r.rdoStngsFreqApplied :=
      happlied.trans (not_not.mp hne)
    cases f with
    | left x =>
      show (r.writeStngs t forRx).slotInto (r.writeStngs t forRx).freqRegs = x
      rw [slotInto_idle hidle, hregs]
      exact h
    | stored =>
      refine ⟨hidle, ?_⟩
      rw [hregs, slotInto_idle h.1, hshadow]
      exact h.2
    | spoilt =>
      refine ⟨hidle, ?_⟩
      rw [hregs, slotInto_idle h.1, hshadow]
      exact h.2

theorem exec_freqInv (t : Target) {r : SX127xRadio} {f : FreqFate} (c : RadioCall)
    (h : r.FreqInv f) : (c.exec t r).FreqInv (r.freqFateAfter t f c) := by
  have hkept : c ≠ .initRadio → (∀ forRx, c ≠ .writeStngs forRx) → (c.exec t r).FreqInv f := by
    intro hinit hwrite
    refine h.congr ?_ (exec_freqApplied t r hwrite) (exec_slot t r hinit)
      (exec_applied_other t r hinit hwrite (by decide))
    simp only [freqRegs]
    rw [exec_regs_other t r hinit hwrite (by decide), exec_regs_other t r hinit hwrite (by decide),
      exec_regs_other t r hinit hwrite (by decide)]
  cases c with
  | initRadio =>
    show (r.initRadio t).slotInto (r.initRadio t).freqRegs = hwresetFreq t
    rw [slotInto_idle (initRadio_slot_idle t r), freqRegs, initRadio_regs_other t (by decide),
      initRadio_regs_other t (by decide), initRadio_regs_other t (by decide), hwresetFreq]
  | writeStngs forRx =>
    rw [exec]
    exact writeStngs_freqInv t forRx h
  | _ => exact hkept (by intro e; cases e) (by intro b e; cases e)

theorem run_freqInv (t : Target) {r : SX127xRadio} {f : FreqFate} (calls : List RadioCall)
    (h : r.FreqInv f) : (run t r calls).FreqInv (freqFateFrom t r f calls) := by
  induction calls generalizing r f with
  | nil => exact h
  | cons c calls ih => exact ih (exec_freqInv t c h)

/-- From any memory and chip contents and after any calls, a `write_stngs` leaves the
registers with the carrier it was to apply just if a carrier was stored since the last reset
and not spoilt, or none was and that reset (without one, the memory) left that carrier. -/
theorem freq_held_iff (t : Target) (r : SX127xRadio) (calls : List RadioCall) (forRx : Bool) :
    (run t r (calls ++ [.writeStngs forRx])).freqRegs =
        freqOctets ((run t r calls).carrier forRx) ↔
      freqFate t r (calls ++ [.writeStngs forRx]) = .stored ∨
        freqFate t r (calls ++ [.writeStngs forRx]) =
          .left (freqOctets ((run t r calls).carrier forRx)) := by
  have hinv : (run t r (calls ++ [.writeStngs forRx])).FreqInv
      (freqFate t r (calls ++ [.writeStngs forRx])) := run_freqInv t _ rfl
  have hrun : run t r (calls ++ [.writeStngs forRx]) = (run t r calls).writeStngs t forRx :=
    run_concat t r calls _
  rw [hrun] at hinv ⊢
  have hidle := writeStngs_slot_idle t (run t r calls) forRx
  have happlied : ((run t r calls).writeStngs t forRx).rdoStngsFreqApplied =
      (run t r calls).carrier forRx := writeStngs_freqApplied (run t r calls) t forRx
  cases hf : freqFate t r (calls ++ [.writeStngs forRx]) with
  | left x =>
    rw [hf] at hinv
    have hleft : ((run t r calls).writeStngs t forRx).freqRegs = x :=
      (slotInto_idle hidle _).symm.trans hinv
    simp only [hleft, FreqFate.left.injEq, reduceCtorEq, false_or]
  | stored =>
    rw [hf] at hinv
    have hheld := hinv.2
    rw [happlied] at hheld
    simp only [true_or, iff_true]
    exact hheld
  | spoilt =>
    rw [hf] at hinv
    have hlost := hinv.2
    rw [happlied] at hlost
    simp only [reduceCtorEq, or_self, iff_false]
    intro hheld
    exact hlost (congrArg Prod.fst hheld)

/-- The radio is initialised a second time: its registers are back at their reset values,
the frequency asked for and the shadow are as before, and the write is skipped. -/
theorem second_init_hides_freq :
    let calls : List RadioCall :=
      [.initRadio, .set .rdoFreqHz 434000000, .writeStngs false, .initRadio]
    (∀ c ∈ calls, c.Accepted) ∧ (run .plain zeroed calls).carrier false = 434000000 ∧
      freqOctets 434000000 = (0xDE, 0x50, 0x80) ∧
      (run .plain zeroed (calls ++ [.writeStngs false])).freqRegs = (0, 0, 0) := by
  decide +kernel

end SX127xRadio
