import HeyMacMbed.RadioFreq

/-!
# Nothing outstanding

`write_stngs` decides in three places whether something is outstanding: for the
errata registers, for the frequency and for each field. Once it has run, a
second run finds nothing to write, and one for the other direction at most the
frequency that differs by the rejection offset.
-/

open Bits Octets Fields

namespace SX127xRadio

theorem storeAll_xfers (c : Chip) (a : RegAddr) (vs : List Octet) :
    (c.storeAll a vs).xfers = c.xfers := by
  induction vs generalizing c a with
  | nil => rfl
  | cons v vs ih =>
    have hstore : (c.store a v).xfers = c.xfers := by
      unfold Chip.store
      split
      · rfl
      · split <;> rfl
    rw [Chip.storeAll, ih, hstore]

variable (t : Target) (r : SX127xRadio)

/-- A write is one transfer. -/
theorem write_xfers {a : RegAddr} (h : a &&& 0x7F = a) (data : List Octet) :
    (r.write a data).chip.xfers = r.chip.xfers ++ [(a ||| 0x80) :: data] := by
  rw [write_chip r h, storeAll_xfers]

/-- The transfers of `_write` for a frequency. -/
def freqXfer (freq : BitVec 32) : List Octet :=
  [regRdoFreqHz ||| 0x80, (freqOctets freq).1, (freqOctets freq).2.1, (freqOctets freq).2.2]

theorem writeFreq_xfers (freq : BitVec 32) :
    (r.writeFreq freq).chip.xfers =
      if freq ≠ r.rdoStngsFreqApplied then r.chip.xfers ++ [freqXfer freq]
      else r.chip.xfers := by
  unfold writeFreq
  split
  · exact write_xfers r (by decide) _
  · rfl

/-- A field written already is left alone. -/
theorem writeFld_idle {fld : Fld} (h : r.rdoStngs fld = r.rdoStngsApplied fld) :
    r.writeFld t fld = r := if_neg (not_not.mpr h)

theorem writeFlds_idle (h : r.rdoStngs = r.rdoStngsApplied) (flds : List Fld) :
    r.writeFlds t flds = r := by
  induction flds with
  | nil => rfl
  | cons fld flds ih => rw [writeFlds_cons, writeFld_idle t r (congrFun h fld), ih]

/-- With the fields written already only the frequency can be outstanding. -/
theorem writeStngs_idle (h : r.rdoStngs = r.rdoStngsApplied) (forRx : Bool) :
    r.writeStngs t forRx = r.writeFreq (r.carrier forRx) := by
  have herrata : ¬ r.ErrataOutstanding := by
    rintro (hmode | hbw)
    · exact hmode (congrFun h _)
    · exact hbw (congrFun h _)
  have hbefore : r.beforeFlds forRx = r.writeFreq (r.carrier forRx) := by
    rw [beforeFlds, if_neg herrata, carrier]
  rw [writeStngs_eq, hbefore]
  apply writeFlds_idle
  rw [writeFreq_rdoStngs, writeFreq_applied, h]

@[simp] theorem writeFlds_freq (flds : List Fld) :
    (r.writeFlds t flds).rdoStngsFreq = r.rdoStngsFreq := by
  refine writeFlds_invariant t (I := fun r' => r'.rdoStngsFreq = r.rdoStngsFreq)
    (fun r' fld h => ?_) rfl flds
  unfold writeFld
  split <;> exact h

/-- No write changes the settings and the frequency asked for. -/
theorem writeStngs_freq (forRx : Bool) :
    (r.writeStngs t forRx).rdoStngsFreq = r.rdoStngsFreq := by
  rw [writeStngs_eq, writeFlds_freq, beforeFlds, writeFreq]
  split <;> split <;> rfl

/-- So the carriers of both directions stay as they were. -/
theorem writeStngs_carrier (forRx forRx' : Bool) :
    (r.writeStngs t forRx).carrier forRx' = r.carrier forRx' := by
  simp only [carrier, errata, writeStngs_freq, writeStngs_rdoStngs]

/-- The carriers of the two directions differ by the rejection offset. -/
theorem carrier_ne_iff (forRx : Bool) :
    r.carrier (!forRx) ≠ r.carrier forRx ↔ r.rejectionOffset true ≠ 0 := by
  have hrx : r.carrier true = r.rdoStngsFreq + r.rejectionOffset true := carrier_eq r true
  have htx : r.carrier false = r.rdoStngsFreq := rfl
  have hzero : r.rdoStngsFreq + r.rejectionOffset true = r.rdoStngsFreq ↔
      r.rejectionOffset true = 0 := by
    constructor
    · intro h
      exact BitVec.add_right_eq_self.mp h
    · intro h
      rw [h]
      exact BitVec.add_zero _
  cases forRx with
  | true => rw [Bool.not_true, hrx, htx, ne_comm, Ne, hzero]
  | false => rw [Bool.not_false, hrx, htx, Ne, hzero]

/-- `write_stngs` settles everything: fields and shadow agree, the same call again makes
no transfer, and the call for the other direction makes one just if a rejection offset
applies, the frequency's. -/
theorem writeStngs_settles (forRx : Bool) :
    let s := r.writeStngs t forRx
    (∀ fld, s.rdoStngs fld = s.rdoStngsApplied fld) ∧ s.stngsRequireSleep = false ∧
      (s.writeStngs t forRx).chip.xfers = s.chip.xfers ∧
      (s.writeStngs t (!forRx)).chip.xfers =
        if s.rejectionOffset true ≠ 0 then s.chip.xfers ++ [freqXfer (s.carrier (!forRx))]
        else s.chip.xfers := by
  intro s
  have hfields : s.rdoStngs = s.rdoStngsApplied := by
    rw [writeStngs_rdoStngs, writeStngs_applied]
  have hfreq : s.rdoStngsFreqApplied = s.carrier forRx := by
    rw [writeStngs_freqApplied, writeStngs_carrier]
    rfl
  refine ⟨fun fld => congrFun hfields fld, ?_, ?_, ?_⟩
  · simp [stngsRequireSleep, hfields]
  · rw [writeStngs_idle t s hfields, writeFreq_xfers, hfreq, if_neg (not_not.mpr rfl)]
  · rw [writeStngs_idle t s hfields, writeFreq_xfers, hfreq]
    by_cases hoff : s.rejectionOffset true ≠ 0
    · rw [if_pos hoff, if_pos ((carrier_ne_iff s forRx).mpr hoff)]
    · rw [if_neg hoff, if_neg fun hne => hoff ((carrier_ne_iff s forRx).mp hne)]

end SX127xRadio
