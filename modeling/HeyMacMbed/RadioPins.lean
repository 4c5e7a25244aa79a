import HeyMacMbed.RadioShadow

/-!
# The interrupt pins

DIO0 to DIO5 are outputs of the radio that interrupt the processor. For each pin the
driver has a routine that translates the edge, by the mapping written last, and
gives the signal to the callback `init_radio` was called with. A pin runs what was
registered on it and nothing else.
-/

open Bits Octets Fields

/-- The pins, and the routines `_dio0_isr` to `_dio5_isr` written for them. -/
inductive Dio where
  | dio0 | dio1 | dio2 | dio3 | dio4 | dio5
  deriving DecidableEq

/-- A pin as the library has it: a rising edge runs the routine registered for it. -/
structure InterruptIn where
  connected : Bool
  onRise : Option Dio

/-- Right after construction nothing is registered. -/
def InterruptIn.new (connected : Bool) : InterruptIn := ⟨connected, none⟩

def dioValMax : Octet := 4

/-- The driver with its pins and the callback that `init_radio` stores, if it ran. -/
structure PinnedRadio (κ : Type) where
  radio : SX127xRadio
  dio : Dio → InterruptIn
  sigDioClbk : Option κ

namespace PinnedRadio

variable {κ : Type}

/-- The constructor, on the memory it is given and with the pins that are not `NC`. -/
def new (memory : SX127xRadio) (connected : Dio → Bool) : PinnedRadio κ where
  radio := { memory with rngRaw := 0 }
  dio := fun d => .new (connected d)
  sigDioClbk := none

/-- `init_radio(sig_dio_clbk)`. -/
def initRadio (t : Target) (x : PinnedRadio κ) (sigDioClbk : κ) : PinnedRadio κ :=
  { x with radio := x.radio.initRadio t, sigDioClbk := some sigDioClbk }

/-- A call of the driver; `init_radio` brings its callback. -/
inductive Call (κ : Type) where
  | initRadio (sigDioClbk : κ)
  | call (c : RadioCall) (h : c ≠ .initRadio)

def exec (t : Target) (x : PinnedRadio κ) : Call κ → PinnedRadio κ
  | .initRadio cb => x.initRadio t cb
  | .call c _ => { x with radio := c.exec t x.radio }

def run (t : Target) (x : PinnedRadio κ) (calls : List (Call κ)) : PinnedRadio κ :=
  calls.foldl (exec t) x

/-- What the six routines do with their pin's setting and table: the calls made of the
callback. `none` is a failed assertion or a read past the table. -/
def isr (x : PinnedRadio κ) (fld : Fld) (sigLut : List SigDio) : Option (List (κ × SigDio)) :=
  if x.radio.rdoStngsApplied fld < dioValMax then
    match x.sigDioClbk with
    | some cb => (sigLut[(x.radio.rdoStngsApplied fld).toNat]?).map fun sig => [(cb, sig)]
    | none => some []
  else none

def dio0ToSigLut : List SigDio := [.rxDone, .txDone, .cadDone]
def dio1ToSigLut : List SigDio := [.rxTmout, .fhssChgChnl, .cadDetected]
def dio2ToSigLut : List SigDio := [.fhssChgChnl, .fhssChgChnl, .fhssChgChnl]
def dio3ToSigLut : List SigDio := [.cadDone, .validHdr, .payldCrcErr]
def dio4ToSigLut : List SigDio := [.cadDetected, .pllLock, .pllLock]
def dio5ToSigLut : List SigDio := [.modeRdy, .clkOut, .clkOut]

def dio0Isr (x : PinnedRadio κ) := x.isr .rdoDio0 dio0ToSigLut
def dio1Isr (x : PinnedRadio κ) := x.isr .rdoDio1 dio1ToSigLut
def dio2Isr (x : PinnedRadio κ) := x.isr .rdoDio2 dio2ToSigLut
def dio3Isr (x : PinnedRadio κ) := x.isr .rdoDio3 dio3ToSigLut
def dio4Isr (x : PinnedRadio κ) := x.isr .rdoDio4 dio4ToSigLut
def dio5Isr (x : PinnedRadio κ) := x.isr .rdoDio5 dio5ToSigLut

def runIsr (x : PinnedRadio κ) : Dio → Option (List (κ × SigDio))
  | .dio0 => x.dio0Isr
  | .dio1 => x.dio1Isr
  | .dio2 => x.dio2Isr
  | .dio3 => x.dio3Isr
  | .dio4 => x.dio4Isr
  | .dio5 => x.dio5Isr

/-- The calls of the callback that a rising edge on the pin makes. -/
def risingEdge (x : PinnedRadio κ) (d : Dio) : Option (List (κ × SigDio)) :=
  match (x.dio d).onRise with
  | some handler => x.runIsr handler
  | none => some []

end PinnedRadio

/-! The pins' settings and tables. -/

def Dio.fld : Dio → Fld
  | .dio0 => .rdoDio0
  | .dio1 => .rdoDio1
  | .dio2 => .rdoDio2
  | .dio3 => .rdoDio3
  | .dio4 => .rdoDio4
  | .dio5 => .rdoDio5

def Dio.sigLut : Dio → List SigDio
  | .dio0 => PinnedRadio.dio0ToSigLut
  | .dio1 => PinnedRadio.dio1ToSigLut
  | .dio2 => PinnedRadio.dio2ToSigLut
  | .dio3 => PinnedRadio.dio3ToSigLut
  | .dio4 => PinnedRadio.dio4ToSigLut
  | .dio5 => PinnedRadio.dio5ToSigLut

theorem Dio.single (d : Dio) : SX127xRadio.Single d.fld := by cases d <;> decide

theorem Dio.valMax (d : Dio) : (stngsInfoLut d.fld).valMax.toNat = 2 := by cases d <;> rfl

theorem Dio.sigLut_length (d : Dio) : d.sigLut.length = 3 := by cases d <;> rfl

namespace SX127xRadio

/-- Mapping asked for and mapping written are among the three a pin has. -/
def Mapped (r : SX127xRadio) : Prop :=
  ∀ d : Dio, (r.rdoStngs d.fld).toNat ≤ 2 ∧ (r.rdoStngsApplied d.fld).toNat ≤ 2

theorem initRadio_mapped (t : Target) (r : SX127xRadio) : (r.initRadio t).Mapped := by
  intro d
  have hne : d.fld ≠ .rdoLoraMode := by cases d <;> decide
  have hval : ((stngsInfoLut d.fld).resetVal.setWidth 8).toNat ≤ 2 := by cases d <;> decide
  constructor
  · rw [initRadio_rdoStngs_other t hne (single_within _ d.single).1]
    exact hval
  · rw [initRadio_applied_other t hne]
    exact hval

theorem set_mapped (t : Target) {r : SX127xRadio} {fld : Fld} {val : BitVec 32}
    (hb : InBounds fld val) (h : r.Mapped) : (r.set t fld val).Mapped := by
  intro d
  constructor
  · by_cases hfld : d.fld = fld
    · subst hfld
      obtain ⟨v, hv, hset⟩ := set_single t (r := r) d.single hb
      have hmax := BitVec.le_def.mp hb.2
      rw [d.valMax] at hmax
      simp only [hset, putStng, Function.update_self, hv]
      exact hmax
    · rw [set_other t (single_within _ d.single).1 hfld]
      exact (h d).1
  · rw [set_applied]
    exact (h d).2

theorem exec_mapped (t : Target) {r : SX127xRadio} {c : RadioCall} (hc : c.Accepted)
    (h : r.Mapped) : (c.exec t r).Mapped := by
  cases c with
  | initRadio =>
    rw [RadioCall.exec]
    exact initRadio_mapped t r
  | set fld val =>
    rw [RadioCall.exec]
    exact set_mapped t hc.1 h
  | writeStngs forRx =>
    intro d
    rw [RadioCall.exec, writeStngs_rdoStngs, writeStngs_applied]
    exact ⟨(h d).1, (h d).1⟩
  | writeSleepStngs =>
    intro d
    have hne : d.fld ≠ .rdoLoraMode := by cases d <;> decide
    rw [RadioCall.exec, writeSleepStngs_rdoStngs, writeSleepStngs_applied,
      Function.update_of_ne hne]
    exact h d
  | _ => exact h

end SX127xRadio

namespace PinnedRadio

variable {κ : Type}

/-- The edge calls the callback once, with the signal that the mapping written selects. -/
def EdgeCalls (x : PinnedRadio κ) (d : Dio) : Prop :=
  ∃ cb sig, x.sigDioClbk = some cb ∧
    d.sigLut[(x.radio.rdoStngsApplied d.fld).toNat]? = some sig ∧
    x.risingEdge d = some [(cb, sig)]

theorem runIsr_eq (x : PinnedRadio κ) (d : Dio) : x.runIsr d = x.isr d.fld d.sigLut := by
  cases d <;> rfl

/-- A routine that runs calls the callback once, with the signal of its table. -/
theorem isr_calls {x : PinnedRadio κ} (hm : x.radio.Mapped) {cb : κ}
    (hcb : x.sigDioClbk = some cb) (d : Dio) :
    ∃ sig, d.sigLut[(x.radio.rdoStngsApplied d.fld).toNat]? = some sig ∧
      x.runIsr d = some [(cb, sig)] := by
  have hle := (hm d).2
  have hlt : (x.radio.rdoStngsApplied d.fld).toNat < d.sigLut.length := by
    rw [d.sigLut_length]
    omega
  have hval : x.radio.rdoStngsApplied d.fld < dioValMax := by
    rw [BitVec.lt_def]
    exact Nat.lt_of_le_of_lt hle (by decide)
  have hget := List.getElem?_eq_getElem hlt
  refine ⟨_, hget, ?_⟩
  rw [runIsr_eq, isr, if_pos hval, hcb]
  simp only [hget, Option.map_some]

/-- Were its routine registered, the pin would do what it is for. -/
theorem edgeCalls_of_registered {x : PinnedRadio κ} (hm : x.radio.Mapped) {cb : κ}
    (hcb : x.sigDioClbk = some cb) {d : Dio} (hr : (x.dio d).onRise = some d) :
    x.EdgeCalls d := by
  obtain ⟨sig, hsig, hrun⟩ := isr_calls hm hcb d
  refine ⟨cb, sig, hcb, hsig, ?_⟩
  rw [risingEdge, hr]
  exact hrun

/-- A pin nothing is registered on calls nothing. -/
theorem risingEdge_silent {x : PinnedRadio κ} {d : Dio} (hr : (x.dio d).onRise = none) :
    x.risingEdge d = some [] := by
  rw [risingEdge, hr]

theorem not_edgeCalls {x : PinnedRadio κ} {d : Dio} (hr : (x.dio d).onRise = none) :
    ¬ x.EdgeCalls d := by
  rintro ⟨cb, sig, _, _, hedge⟩
  rw [risingEdge_silent hr] at hedge
  cases hedge

/-- What each call keeps, a sequence of them keeps. -/
theorem run_invariant (t : Target) {I : PinnedRadio κ → Prop} {calls : List (Call κ)}
    (hstep : ∀ x, ∀ c ∈ calls, I x → I (x.exec t c)) {x : PinnedRadio κ} (h : I x) :
    I (x.run t calls) := by
  induction calls generalizing x with
  | nil => exact h
  | cons c calls ih =>
    have hhead := hstep x c List.mem_cons_self h
    exact ih (fun x c' h' => hstep x c' (List.mem_cons_of_mem _ h')) hhead

/-! No call registers a routine. -/

theorem exec_dio (t : Target) (x : PinnedRadio κ) (c : Call κ) : (x.exec t c).dio = x.dio := by
  cases c <;> rfl

theorem run_dio (t : Target) (x : PinnedRadio κ) (calls : List (Call κ)) :
    (x.run t calls).dio = x.dio :=
  run_invariant t (I := fun y => y.dio = x.dio) (fun y c _ h => (exec_dio t y c).trans h) rfl

def Call.Accepted : Call κ → Prop
  | .initRadio _ => True
  | .call c _ => c.Accepted

/-- Once the driver has a callback and its mappings are proper, they stay so. -/
def Ready (x : PinnedRadio κ) : Prop := x.radio.Mapped ∧ x.sigDioClbk.isSome

theorem initRadio_ready (t : Target) (x : PinnedRadio κ) (cb : κ) : (x.initRadio t cb).Ready :=
  ⟨SX127xRadio.initRadio_mapped t x.radio, rfl⟩

theorem exec_ready (t : Target) {x : PinnedRadio κ} {c : Call κ} (hc : c.Accepted)
    (h : x.Ready) : (x.exec t c).Ready := by
  cases c with
  | initRadio cb => exact initRadio_ready t x cb
  | call c _ => exact ⟨SX127xRadio.exec_mapped t hc h.1, h.2⟩

theorem run_ready (t : Target) {x : PinnedRadio κ} {calls : List (Call κ)}
    (hc : ∀ c ∈ calls, c.Accepted) (h : x.Ready) : (x.run t calls).Ready :=
  run_invariant t (fun _ c hmem h => exec_ready t (hc c hmem) h) h

/-- On pins that have their own routine or none, an edge after `init_radio` and any
accepted calls does what it is for just on those that have it. -/
theorem edgeCalls_iff_registered (t : Target) (x : PinnedRadio κ) (cb : κ)
    (calls : List (Call κ)) (hc : ∀ c ∈ calls, c.Accepted) (d : Dio)
    (hown : (x.dio d).onRise = none ∨ (x.dio d).onRise = some d) :
    ((x.initRadio t cb).run t calls).EdgeCalls d ↔ (x.dio d).onRise = some d := by
  have hready := run_ready t hc (initRadio_ready t x cb)
  have hdio : ((x.initRadio t cb).run t calls).dio = x.dio := run_dio t _ calls
  obtain ⟨cb', hcb'⟩ := Option.isSome_iff_exists.mp hready.2
  constructor
  · intro hedge
    rcases hown with hnone | hsome
    · rw [← hdio] at hnone
      exact absurd hedge (not_edgeCalls hnone)
    · exact hsome
  · intro hr
    rw [← hdio] at hr
    exact edgeCalls_of_registered hready.1 hcb' hr

end PinnedRadio
