import HeyMacMbed.RadioShadow

/-!
# The receive errata registers

`write_stngs` chooses the errata values from its argument and the bandwidth, but
writes them only when LoRa mode or bandwidth is outstanding. What the registers
hold afterwards is therefore a matter of which call last found them outstanding.
-/

open Bits Octets Fields RadioCall

namespace SX127xRadio

/-- `REG_LORA_IF_FREQ_2` and bit 7 of `REG_LORA_DTCT_OPTMZ`. -/
def errataRegs (r : SX127xRadio) : Octet × Bool :=
  (r.chip.regs regLoraIfFreq2, (r.chip.regs regLoraDtctOptmz).getLsbD 7)

/-- The errata 2.3 values for receiving at a bandwidth. -/
def errataValues (bw : Octet) : Octet × Bool :=
  if bw ≥ stngLoraBw500k then (0x20, true) else ((freqInfo bw).2, false)

/-- The driver before the last call of a sequence decides whether that call runs
the errata block, and with which values. -/
def rxErrataAfter (r : SX127xRadio) (b : Bool) : RadioCall → Bool
  | .initRadio => false
  | .writeStngs forRx =>
    if r.ErrataOutstanding then forRx && r.rdoStngs .rdoLoraMode != 0 else b
  | _ => b

/-- The last `write_stngs` that found LoRa mode or bandwidth outstanding was for
receiving in LoRa mode; `b` tells so of the calls before. -/
def rxErrataLast (t : Target) (r : SX127xRadio) (b : Bool) : List RadioCall → Bool
  | [] => b
  | c :: calls => rxErrataLast t (c.exec t r) (r.rxErrataAfter b c) calls

/-- What the errata registers hold, by the last call that wrote them. -/
structure ErrataInv (r : SX127xRadio) (b : Bool) : Prop where
  rx : b = true → r.errataRegs = errataValues (r.rdoStngsApplied .loraBw)
  other : b = false → r.errataRegs.1 = 0x20 ∧
    (stngLoraBw500k ≤ r.rdoStngsApplied .loraBw → r.errataRegs.2 = false)

theorem ErrataInv.of_kept {r r' : SX127xRadio} {b : Bool} (h : r.ErrataInv b)
    (hr : r'.errataRegs = r.errataRegs)
    (ha : r'.rdoStngsApplied .loraBw = r.rdoStngsApplied .loraBw) : r'.ErrataInv b := by
  refine ⟨fun hb => ?_, fun hb => ?_⟩
  · rw [hr, ha]
    exact h.rx hb
  · rw [hr, ha]
    exact h.other hb

theorem errataRegs_congr {r r' : SX127xRadio}
    (h : ∀ a ∈ [regLoraIfFreq2, regLoraDtctOptmz], r'.chip.regs a = r.chip.regs a) :
    r'.errataRegs = r.errataRegs := by
  rw [errataRegs, errataRegs, h _ (by decide), h _ (by decide)]

theorem regStart_not_errata : ∀ fld, regLoraIfFreq2 ≠ (stngsInfoLut fld).regStart ∧
    regLoraDtctOptmz ≠ (stngsInfoLut fld).regStart := by decide

theorem bit7_rmw : ∀ x : Octet, ∀ on : Bool,
    ((x &&& ~~~0x80) ||| (if on then 0x80 else 0)).getLsbD 7 = on := by decide

/-- The errata registers after `write_stngs`. -/
theorem writeStngs_errataRegs (t : Target) (r : SX127xRadio) (forRx : Bool) :
    (r.writeStngs t forRx).errataRegs =
      if r.ErrataOutstanding then ((r.errata forRx).2.2, (r.errata forRx).2.1)
      else r.errataRegs := by
  have hloop : (r.writeStngs t forRx).errataRegs = (r.beforeFlds forRx).errataRegs := by
    rw [writeStngs_eq, errataRegs, errataRegs,
      writeFlds_regs_other _ t _ fun fld => (regStart_not_errata fld).1,
      writeFlds_regs_other _ t _ fun fld => (regStart_not_errata fld).2]
  rw [hloop, errataRegs, beforeFlds, writeFreq_regs_other _ _ (by decide),
    writeFreq_regs_other _ _ (by decide)]
  split
  · rw [writeErrata_regs, Function.update_of_ne (by decide), Function.update_self,
      Function.update_self, bit7_rmw]
  · rfl

theorem errata_rx {r : SX127xRadio} (h : r.rdoStngs .rdoLoraMode ≠ 0) :
    ((r.errata true).2.2, (r.errata true).2.1) = errataValues (r.rdoStngs .loraBw) := by
  unfold errata errataValues
  rw [if_pos ⟨rfl, h⟩]
  split <;> rfl

theorem errata_not_rx {r : SX127xRadio} {forRx : Bool}
    (h : (forRx && r.rdoStngs .rdoLoraMode != 0) = false) :
    (r.errata forRx).2.2 = 0x20 ∧ (r.errata forRx).2.1 = false := by
  have hn : ¬ (forRx = true ∧ r.rdoStngs .rdoLoraMode ≠ 0) := by
    rintro ⟨hrx, hl⟩
    rw [hrx, Bool.true_and, bne_eq_false_iff_eq] at h
    exact hl h
  unfold errata
  rw [if_neg hn]
  exact ⟨rfl, rfl⟩

theorem writeStngs_errataInv (t : Target) {r : SX127xRadio} {b : Bool} (forRx : Bool)
    (h : r.ErrataInv b) :
    (r.writeStngs t forRx).ErrataInv (r.rxErrataAfter b (.writeStngs forRx)) := by
  by_cases hout : r.ErrataOutstanding
  · have hregs := writeStngs_errataRegs t r forRx
    rw [if_pos hout] at hregs
    simp only [rxErrataAfter, if_pos hout]
    refine ⟨fun hb => ?_, fun hb => ?_⟩
    · obtain ⟨hrx, hl⟩ := Bool.and_eq_true_iff.mp hb
      subst hrx
      rw [hregs, writeStngs_applied]
      exact errata_rx (bne_iff_ne.mp hl)
    · obtain ⟨h1, h2⟩ := errata_not_rx hb
      rw [hregs]
      exact ⟨h1, fun _ => h2⟩
  · have hregs := writeStngs_errataRegs t r forRx
    rw [if_neg hout] at hregs
    simp only [rxErrataAfter, if_neg hout]
    refine h.of_kept hregs ?_
    rw [writeStngs_applied]
    by_contra hne
    exact hout (Or.inr hne)

theorem initRadio_errataInv (t : Target) (r : SX127xRadio) : (r.initRadio t).ErrataInv false := by
  refine ⟨fun hb => ?_, fun _ => ⟨?_, fun hbw => ?_⟩⟩
  · cases hb
  · rw [errataRegs, initRadio_regs_other t (by decide)]
    exact t.hwreset_ifFreq2
  · rw [initRadio_applied_other t (by decide)] at hbw
    exact absurd hbw (by decide)

theorem exec_errataInv (t : Target) {r : SX127xRadio} {b : Bool} (c : RadioCall)
    (h : r.ErrataInv b) : (c.exec t r).ErrataInv (r.rxErrataAfter b c) := by
  have hkept : c ≠ .initRadio → (∀ forRx, c ≠ .writeStngs forRx) → (c.exec t r).ErrataInv b := by
    intro hinit hwrite
    refine h.of_kept (errataRegs_congr fun a ha => ?_)
      (exec_applied_other t r hinit hwrite (by decide))
    have hother : a ∉ otherRegs := by
      rcases List.mem_pair.mp ha with rfl | rfl <;> decide
    exact exec_regs_other t r hinit hwrite hother
  cases c with
  | initRadio =>
    rw [exec]
    exact initRadio_errataInv t r
  | writeStngs forRx =>
    rw [exec]
    exact writeStngs_errataInv t forRx h
  | _ => exact hkept (by intro e; cases e) (by intro b e; cases e)

theorem run_errataInv (t : Target) {r : SX127xRadio} {b : Bool} (calls : List RadioCall)
    (h : r.ErrataInv b) : (run t r calls).ErrataInv (rxErrataLast t r b calls) := by
  induction calls generalizing r b with
  | nil => exact h
  | cons c calls ih => exact ih (exec_errataInv t c h)

theorem rxErrataLast_append (t : Target) (r : SX127xRadio) (b : Bool) (calls : List RadioCall)
    (c : RadioCall) : rxErrataLast t r b (calls ++ [c]) =
      (run t r calls).rxErrataAfter (rxErrataLast t r b calls) c := by
  induction calls generalizing r b with
  | nil => rfl
  | cons d calls ih => exact ih _ _

/-- No bandwidth below 500K has the reset value. -/
theorem freqInfo_ne_reset : ∀ bw : Octet, bw < stngLoraBw500k → (freqInfo bw).2 ≠ 0x20 := by
  decide

/-- The registers tell which kind of call wrote them last. -/
theorem ErrataInv.holds_iff {r : SX127xRadio} {b : Bool} (h : r.ErrataInv b) :
    r.errataRegs = errataValues (r.rdoStngsApplied .loraBw) ↔ b = true := by
  refine ⟨fun heq => ?_, h.rx⟩
  by_contra hb
  obtain ⟨h1, h2⟩ := h.other (by simpa using hb)
  rw [heq] at h1 h2
  unfold errataValues at h1 h2
  by_cases hbw : stngLoraBw500k ≤ r.rdoStngsApplied .loraBw
  · have := h2 hbw
    rw [if_pos hbw] at this
    cases this
  · rw [if_neg hbw] at h1
    exact freqInfo_ne_reset _ (BitVec.not_le.mp hbw) h1

/-- The driver after `init_radio`, any calls and a `write_stngs(true)`. -/
theorem rxErrata_after (t : Target) (r : SX127xRadio) (calls : List RadioCall) :
    (run t r (.initRadio :: calls ++ [.writeStngs true])).ErrataInv
        (rxErrataLast t (r.initRadio t) false (calls ++ [.writeStngs true])) ∧
      (run t r (.initRadio :: calls ++ [.writeStngs true])).rdoStngsApplied .loraBw =
        (run t r (.initRadio :: calls)).rdoStngs .loraBw := by
  have hinv := run_errataInv t calls (initRadio_errataInv t r)
  have hrun : run t r (.initRadio :: calls ++ [.writeStngs true]) =
      (run t (r.initRadio t) calls).writeStngs t true := run_concat t r (.initRadio :: calls) _
  rw [hrun, rxErrataLast_append, writeStngs_applied]
  exact ⟨writeStngs_errataInv t true hinv, rfl⟩

/-- After `init_radio`, any calls and a `write_stngs(true)` the errata registers have
their values for the bandwidth set just if the last `write_stngs` that found LoRa mode
or bandwidth outstanding was for receiving in LoRa mode. -/
theorem rx_errata_iff (t : Target) (r : SX127xRadio) (calls : List RadioCall) :
    (run t r (.initRadio :: calls ++ [.writeStngs true])).errataRegs =
        errataValues ((run t r (.initRadio :: calls)).rdoStngs .loraBw) ↔
      rxErrataLast t (r.initRadio t) false (calls ++ [.writeStngs true]) = true := by
  obtain ⟨hinv, hbw⟩ := rxErrata_after t r calls
  rw [← hbw]
  exact hinv.holds_iff

/-- Beside a history that ends with the right values, another for the same bandwidth ends
with equal ones just if its last such `write_stngs` was for receiving, too. -/
theorem rx_errata_alike (t : Target) (r r' : SX127xRadio) (calls calls' : List RadioCall)
    (hbw : (run t r' (.initRadio :: calls')).rdoStngs .loraBw =
      (run t r (.initRadio :: calls)).rdoStngs .loraBw)
    (hlast : rxErrataLast t (r.initRadio t) false (calls ++ [.writeStngs true]) = true) :
    (run t r' (.initRadio :: calls' ++ [.writeStngs true])).errataRegs =
        (run t r (.initRadio :: calls ++ [.writeStngs true])).errataRegs ↔
      rxErrataLast t (r'.initRadio t) false (calls' ++ [.writeStngs true]) = true := by
  obtain ⟨hinv, hown⟩ := rxErrata_after t r calls
  obtain ⟨hinv', hown'⟩ := rxErrata_after t r' calls'
  have hsame : (run t r' (.initRadio :: calls' ++ [.writeStngs true])).rdoStngsApplied .loraBw =
      (run t r (.initRadio :: calls ++ [.writeStngs true])).rdoStngsApplied .loraBw := by
    rw [hown, hown', hbw]
  rw [hinv.rx hlast, ← hsame]
  exact hinv'.holds_iff

/-- The bandwidth is set to 250K and first written for sending: the write for receiving
then finds nothing outstanding and leaves the reset value instead of 0x40. -/
theorem tx_first_hides_rx_errata :
    let before : List RadioCall := [.initRadio, .set .loraBw 8, .writeStngs false]
    let after : List RadioCall := [.initRadio, .set .loraBw 8]
    (∀ c ∈ before, c.Accepted) ∧
      (run .plain zeroed before).rdoStngs .rdoLoraMode = 1 ∧
      (run .plain zeroed before).rdoStngs .loraBw = stngLoraBw250k ∧
      (run .plain zeroed (before ++ [.writeStngs true])).errataRegs = (0x20, false) ∧
      errataValues stngLoraBw250k = (0x40, false) ∧
      (run .plain zeroed (after ++ [.writeStngs true])).errataRegs = (0x40, false) := by
  decide

end SX127xRadio
