import HeyMacMbed.RadioPins

/-!
# What an interrupt is taken for

The routines of the pins translate by the mapping noted as written. Over every
sequence of calls that is the mapping in the chip, so the signal given to the
callback is the one the chip was told to put on the pin, whatever has been asked
for since.
-/

open Bits Octets Fields

/-- The two mapping bits of a pin in `REG_RDO_DIOMAP1` and `REG_RDO_DIOMAP2`. -/
def Dio.mapField : Dio → BitField RegAddr
  | .dio0 => ⟨regRdoDiomap1, 6, 2⟩
  | .dio1 => ⟨regRdoDiomap1, 4, 2⟩
  | .dio2 => ⟨regRdoDiomap1, 2, 2⟩
  | .dio3 => ⟨regRdoDiomap1, 0, 2⟩
  | .dio4 => ⟨regRdoDiomap2, 6, 2⟩
  | .dio5 => ⟨regRdoDiomap2, 4, 2⟩

/-- The value of the pin's mapping bits in the chip. -/
def Dio.mapping (d : Dio) (r : SX127xRadio) : Nat := (d.mapField.read r.chip.regs).toNat

theorem Dio.chipVal_fld (d : Dio) (r : SX127xRadio) : r.chipVal d.fld = d.mapping r := by
  cases d <;> rfl

namespace PinnedRadio

variable {κ : Type}

/-- The routine of a pin finds its signal, in the table, under the chip's mapping bits
and gives the callback that one. -/
structure Translates (x : PinnedRadio κ) (d : Dio) : Prop where
  index : (x.radio.rdoStngsApplied d.fld).toNat = d.mapping x.radio
  inside : d.mapping x.radio < 3 ∧ d.sigLut.length = 3
  calls : ∃ cb sig, x.sigDioClbk = some cb ∧ d.sigLut[d.mapping x.radio]? = some sig ∧
    x.runIsr d = some [(cb, sig)]

/-- The shadow stays the chip's, with a callback and proper mappings. -/
def Mirrors (x : PinnedRadio κ) : Prop := x.radio.Coherent ∧ x.Ready

theorem initRadio_mirrors (t : Target) (x : PinnedRadio κ) (cb : κ) :
    (x.initRadio t cb).Mirrors :=
  ⟨SX127xRadio.initRadio_coherent t, initRadio_ready t x cb⟩

theorem exec_mirrors (t : Target) {x : PinnedRadio κ} {c : Call κ} (hc : c.Accepted)
    (h : x.Mirrors) : (x.exec t c).Mirrors := by
  refine ⟨?_, exec_ready t hc h.2⟩
  cases c with
  | initRadio cb => exact SX127xRadio.initRadio_coherent t
  | call c _ => exact SX127xRadio.exec_coherent t hc h.1

theorem run_mirrors (t : Target) {x : PinnedRadio κ} {calls : List (Call κ)}
    (hc : ∀ c ∈ calls, c.Accepted) (h : x.Mirrors) : (x.run t calls).Mirrors :=
  run_invariant t (fun _ c hmem h => exec_mirrors t (hc c hmem) h) h

theorem Mirrors.translates {x : PinnedRadio κ} (h : x.Mirrors) (d : Dio) : x.Translates d := by
  have hindex : (x.radio.rdoStngsApplied d.fld).toNat = d.mapping x.radio := by
    rw [← d.chipVal_fld]
    exact (h.1.applied d.fld d.single).symm
  have hle : d.mapping x.radio ≤ 2 := hindex ▸ (h.2.1 d).2
  obtain ⟨cb, hcb⟩ := Option.isSome_iff_exists.mp h.2.2
  obtain ⟨sig, hsig, hrun⟩ := isr_calls h.2.1 hcb d
  rw [hindex] at hsig
  exact ⟨hindex, ⟨by omega, d.sigLut_length⟩, cb, sig, hcb, hsig, hrun⟩

/-- After `init_radio` and any accepted calls every pin's routine translates by the
chip's mapping bits. -/
theorem run_translates (t : Target) (x : PinnedRadio κ) (cb : κ) (calls : List (Call κ))
    (hc : ∀ c ∈ calls, c.Accepted) (d : Dio) :
    ((x.initRadio t cb).run t calls).Translates d :=
  (run_mirrors t hc (initRadio_mirrors t x cb)).translates d

/-- DIO0 is mapped to TxDone; CadDone is asked for and not written yet. -/
theorem run_translates_stale :
    let x : PinnedRadio Unit := .new .zeroed fun _ => true
    let calls : List (Call Unit) := [.call (.set .rdoDio0 1) (by intro e; cases e),
      .call (.writeStngs false) (by intro e; cases e),
      .call (.set .rdoDio0 2) (by intro e; cases e)]
    ((x.initRadio .plain ()).run .plain calls).Translates .dio0 ∧
      ((x.initRadio .plain ()).run .plain calls).dio0Isr = some [((), .txDone)] := by
  intro x calls
  have hc : ∀ c ∈ calls, c.Accepted := by
    simp only [calls, List.mem_cons, List.not_mem_nil, or_false, forall_eq_or_imp, forall_eq,
      Call.Accepted]
    decide
  exact ⟨run_translates .plain x () calls hc .dio0, by decide +kernel⟩

end PinnedRadio
