import HeyMacMbed.Atomicity
import HeyMacMbed.LayerLoop
import HeyMacMbed.RadioOps

/-!
# The layer, one access at a time

In the layer's thread a call of the driver is one step. Here it is the program of its
accesses, so that events come in between any two SPI transfers and any two stores. No
new state is seen where the layer makes its calls: the radio's interrupt flags, which
events change, are touched by the last access of a call only.
-/

open Bits Octets Threads HeyMacLayer

/-- A call of the layer that is one step, or one access of the driver. -/
inductive FineCall where
  | whole (o : Call)
  | access (o : RadioOp)

@[reducible] def FineCall.Res : FineCall → Type
  | .whole o => o.Res
  | .access o => o.Res

/-- The transfer that commands an op mode is noted. -/
def RadioOp.note : RadioOp → World → World
  | .writeMode m _, w => { w with opMode := some m, rxBusy := false }
  | _, w => w

/-- An access in the layer's world. -/
def World.access (p : Platform) (o : RadioOp) (w : World) : o.Res × World :=
  let x := o.exec p.target w.radio
  (x.1, o.note (w.setRadio x.2))

def FineCall.exec (p : Platform) : (o : FineCall) → Choice → World → Option (o.Res × World)
  | .whole o, ch, w => o.exec p ch w
  | .access o, _, w => some (w.access p o)

abbrev FineProg (α : Type) := Prog FineCall.Res α

/-- A program of the driver's in the layer. -/
def RadioProg.inLayer {α : Type} (q : RadioProg α) : FineProg α :=
  q.expand fun o => Prog.perform (.access o)

/-- The steps of a call. The layer's own `init_radio` makes no call of the driver's. -/
def Call.fine (p : Platform) : (o : Call) → FineProg o.Res
  | .radio .initRadio => Prog.perform (FineCall.whole (.radio .initRadio))
  | .radio c => (c.prog p.target).inLayer
  | .pinReset => (RadioProg.op .pinReset).inLayer
  | .resetRdoStngs => (RadioProg.resetRdoStngs Fld.all).inLayer
  | .validateChip => RadioProg.validateChip.inLayer
  | .noteLoraMode => RadioProg.noteLoraMode.inLayer
  | .stngsRequireSleep => (RadioProg.stngOutstanding .rdoLoraMode).inLayer
  | o => Prog.perform (FineCall.whole o)

/-- The layer's thread with its calls of the driver access by access. -/
def fineLayer (p : Platform) : System FineCall.Res World Event Choice Locals where
  exec := FineCall.exec p
  env := Event.exec
  body := fun l => (mainLoop p l).expand (Call.fine p)

abbrev FineConfig := Config FineCall.Res World Locals

def FineStarted (p : Platform) (c : FineConfig) : Prop :=
  c.world.Fresh ∧ ∃ uninit, c.prog = (mainStart uninit).expand (Call.fine p)

/-! What events leave to an access. -/

def Chip.latchFlags (c : Chip) (m : Octet) : Chip :=
  { c with regs := Function.update c.regs regLoraIrqFlags (c.regs regLoraIrqFlags ||| m) }

/-- The chip latches interrupt flags. -/
def SX127xRadio.latchFlags (r : SX127xRadio) (m : Octet) : SX127xRadio :=
  { r with chip := r.chip.latchFlags m }

/-- The access commands no op mode and does not touch the interrupt flags. -/
def RadioOp.Calm : RadioOp → Prop
  | .read addr => addr &&& 0x7F = addr ∧ addr ≠ regLoraIrqFlags
  | .write addr data => addr &&& 0x7F = addr ∧ Misses regLoraIrqFlags addr data.length
  | .writeMode _ _ | .writeFifo _ _ | .pinReset => False
  | _ => True

section Calm
variable {t : Target}

theorem store_latch (c : Chip) {a : RegAddr} (ha : a ≠ regLoraIrqFlags) (v m : Octet) :
    (c.latchFlags m).store a v = (c.store a v).latchFlags m := by
  unfold Chip.store
  split
  · rfl
  · simp only [Chip.latchFlags, Function.update_of_ne (Ne.symm ha)]
    rw [Function.update_comm ha]

theorem storeAll_latch (c : Chip) {a : RegAddr} (vs : List Octet)
    (h : Misses regLoraIrqFlags a vs.length) (m : Octet) :
    (c.latchFlags m).storeAll a vs = (c.storeAll a vs).latchFlags m := by
  induction vs generalizing c a with
  | nil => rfl
  | cons v vs ih => rw [Chip.storeAll, Chip.storeAll, store_latch c h.1, ih _ h.2]

theorem readReg_eq (r : SX127xRadio) {a : RegAddr} (h : a &&& 0x7F = a) :
    r.readReg a = (r.chip.regs a,
      { r with chip := { r.chip with xfers := r.chip.xfers ++ [[a, 0]] } }) := by
  have hcmd : a &&& ~~~0x80 = a := h
  simp only [SX127xRadio.readReg, SX127xRadio.read, hcmd, SX127xRadio.transfer_read _ h]
  rfl

/-- A calm access neither sees nor hides what the chip latches. -/
theorem calm_latch {o : RadioOp} (ho : o.Calm) (r : SX127xRadio) (m : Octet) :
    o.exec t (r.latchFlags m) = ((o.exec t r).1, (o.exec t r).2.latchFlags m) ∧
      (o.exec t r).2.chip.regs regLoraIrqFlags = r.chip.regs regLoraIrqFlags := by
  cases o with
  | read addr =>
    obtain ⟨haddr, hne⟩ := ho
    have hsame : (r.latchFlags m).chip.regs addr = r.chip.regs addr :=
      Function.update_of_ne hne _ _
    simp only [RadioOp.exec, readReg_eq _ haddr, hsame, and_true]
    rfl
  | write addr data =>
    obtain ⟨haddr, hmiss⟩ := ho
    have hcomm := storeAll_latch
      { r.chip with xfers := r.chip.xfers ++ [(addr ||| 0x80) :: data] } data hmiss m
    have hlatch := SX127xRadio.write_chip (r.latchFlags m) haddr data
    have hchip : ((r.latchFlags m).write addr data).chip =
        (r.write addr data).chip.latchFlags m := by
      rw [hlatch, SX127xRadio.write_chip r haddr data]
      exact hcomm
    exact ⟨congrArg (fun c => ((), { r with chip := c })) hchip, write_regs_other r haddr hmiss⟩
  | writeMode _ _ => cases ho
  | writeFifo _ _ => cases ho
  | pinReset => cases ho
  | _ => exact ⟨rfl, rfl⟩

end Calm

section Events
variable {p : Platform} {o : RadioOp}

theorem access_calm (ho : o.Calm) (w : World) :
    w.access p o = ((o.exec p.target w.radio).1, w.setRadio (o.exec p.target w.radio).2) := by
  cases o with
  | writeMode _ _ => cases ho
  | _ => rfl

theorem latch_eq (w : World) (m : Octet) (evt : BitVec 32) :
    w.latch m evt = if w.latched m then w.setRadio (w.radio.latchFlags m)
      else (w.setRadio (w.radio.latchFlags m)).post evt := rfl

/-- A calm access and a latched interrupt do not mind in which order they come. -/
theorem access_latch (ho : o.Calm) (w : World) (m : Octet) (evt : BitVec 32) :
    (w.latch m evt).access p o =
      ((w.access p o).1, (w.access p o).2.latch m evt) := by
  obtain ⟨hcomm, hkept⟩ := calm_latch (t := p.target) ho w.radio m
  have hlatched : (w.setRadio (o.exec p.target w.radio).2).latched m = w.latched m :=
    congrArg (has · m) hkept
  rw [access_calm ho, access_calm ho, latch_eq, latch_eq, hlatched]
  split
  · simp only [World.setRadio, hcomm]
  · simp only [World.setRadio, World.post, hcomm]

/-- What happens after a calm access could have happened before it. -/
theorem access_putOff (ho : o.Calm) : PutOff (fineLayer p) (.access o) := by
  intro ch w r w₁ e w₂ hx he
  have hx : w.access p o = (r, w₁) := Option.some.inj hx
  have he : e.exec w₁ = some w₂ := he
  have hcalm := access_calm (p := p) ho
  suffices h : ∃ w', e.exec w = some w' ∧ w'.access p o = (r, w₂) by
    obtain ⟨w', he', hx'⟩ := h
    exact ⟨w', he', congrArg some hx'⟩
  rw [hcalm] at hx
  cases hx
  cases e with
  | threadStarted =>
    obtain ⟨hs, he⟩ := Option.ite_none_right_eq_some.mp he
    cases he
    exact ⟨_, if_pos hs, hcalm _⟩
  | tick =>
    obtain ⟨ht, he⟩ := Option.ite_none_right_eq_some.mp he
    cases he
    exact ⟨_, if_pos ht, hcalm _⟩
  | btn =>
    cases he
    exact ⟨_, rfl, hcalm _⟩
  | dio sig =>
    cases he
    exact ⟨_, rfl, hcalm _⟩
  | pushBack frm txTime =>
    cases he
    exact ⟨_, rfl, hcalm _⟩
  | postTxRdy =>
    obtain ⟨hd, he⟩ := Option.ite_none_right_eq_some.mp he
    cases he
    exact ⟨_, if_pos hd, hcalm _⟩
  | newFrame =>
    obtain ⟨hroom, he⟩ := Option.ite_none_right_eq_some.mp he
    cases he
    exact ⟨_, if_pos hroom, hcalm _⟩
  | deleteFrame =>
    obtain ⟨hpos, he⟩ := Option.ite_none_right_eq_some.mp he
    cases he
    exact ⟨_, if_pos hpos, hcalm _⟩
  | changeFrame frm f =>
    cases he
    exact ⟨_, rfl, hcalm _⟩
  | validHeader =>
    obtain ⟨hm, he⟩ := Option.ite_none_right_eq_some.mp he
    cases he
    have hlatch := access_latch (p := p) ho w loraIrqValidHeader evtDioValidHdr
    rw [hcalm, hcalm] at hlatch
    exact ⟨_, if_pos hm, (hcalm _).trans
      (congrArg (fun x => (x.1, { x.2 with rxBusy := true })) hlatch)⟩
  | rxDone =>
    obtain ⟨hb, he⟩ := Option.ite_none_right_eq_some.mp he
    cases he
    have hlatch := access_latch (p := p) ho w loraIrqRxDone evtDioRxDone
    rw [hcalm, hcalm] at hlatch
    exact ⟨_, if_pos hb, (hcalm _).trans
      (congrArg (fun x => (x.1, { x.2 with rxBusy := false })) hlatch)⟩

end Events

/-! The calls' programs. -/

section Programs
variable {t : Target} {α β : Type}

theorem regStart_calm (fld : Fld) : (RadioOp.read (stngsInfoLut fld).regStart).Calm := by
  cases fld <;> exact ⟨by decide, by decide⟩

theorem calm_write {a : RegAddr} {n : Nat} {data : List Octet}
    (h : a &&& 0x7F = a ∧ Misses regLoraIrqFlags a n) (hlen : data.length = n) : (RadioOp.write a data).Calm :=
  ⟨h.1, hlen ▸ h.2⟩

theorem regStart_misses (fld : Fld) :
    (stngsInfoLut fld).regStart &&& 0x7F = (stngsInfoLut fld).regStart ∧
      Misses regLoraIrqFlags (stngsInfoLut fld).regStart 1 := by
  cases fld <;> decide

theorem calm_reset (flds : List Fld) : (RadioProg.resetRdoStngs flds).Calls RadioOp.Calm := by
  induction flds with
  | nil => trivial
  | cons fld flds ih => exact ⟨trivial, fun _ => ⟨trivial, fun _ => ih⟩⟩

theorem calm_writeFlds (flds : List Fld) : (RadioProg.writeFlds t flds).Calls RadioOp.Calm := by
  induction flds with
  | nil => trivial
  | cons fld flds ih =>
    refine Prog.calls_bind (Prog.calls_bind (calls_outstanding (fun _ => trivial) (fun _ => trivial) fld) fun b => ?_) fun _ => ih
    split
    · refine calls_access (regStart_calm fld) fun _ => calls_access trivial fun _ => ?_
      exact ⟨calm_write (regStart_misses fld) rfl, fun _ => ⟨trivial, fun _ => ⟨trivial, fun _ => trivial⟩⟩⟩
    · trivial

theorem calm_writeStngs (forRx : Bool) :
    (RadioProg.writeStngs t forRx).Calls RadioOp.Calm := by
  refine calls_access trivial fun freq => ?_
  refine Prog.calls_bind (calls_errata (fun _ => trivial) forRx freq) fun x => ?_
  refine Prog.calls_bind (calls_errataOutstanding (fun _ => trivial) fun _ => trivial) fun b => ?_
  refine Prog.calls_bind ?_ fun _ => Prog.calls_bind ?_ fun _ => calm_writeFlds Fld.all
  · split
    · exact calls_writeErrata (fun _ => calm_write (n := 1) (by decide) rfl)
        ⟨by decide, by decide⟩ (fun _ => calm_write (n := 1) (by decide) rfl) _ _
    · trivial
  · exact calls_writeFreq trivial (fun _ hlen => calm_write (n := 3) (by decide) hlen)
      (fun _ => trivial) _

theorem calm_writeSleepStngs : RadioProg.writeSleepStngs.Calls RadioOp.Calm := by
  refine Prog.calls_bind (calls_outstanding (fun _ => trivial) (fun _ => trivial) _) fun b => ?_
  split
  · refine calls_access ⟨by decide, by decide⟩ fun _ => calls_access trivial fun _ => ?_
    exact ⟨calm_write (n := 1) (by decide) rfl, fun _ => ⟨trivial, fun _ => ⟨trivial, fun _ => trivial⟩⟩⟩
  · trivial

theorem calm_set (fld : Fld) (val : BitVec 32) : (RadioProg.set t fld val).Calls RadioOp.Calm := by
  refine calls_access trivial fun info => ?_
  split
  · cases fld <;> repeat' first | trivial | refine ⟨trivial, fun _ => ?_⟩
  · trivial

/-- The calls of the driver all of whose accesses are calm. -/
def RadioCall.Calm : RadioCall → Prop
  | .initRadio | .writeFifo _ _ | .writeLoraIrqFlags _ | .writeOpMode _ => False
  | _ => True

theorem calm_prog {c : RadioCall} (hc : c.Calm) : (c.prog t).Calls RadioOp.Calm := by
  cases c with
  | initRadio => cases hc
  | readOpMode => exact ⟨⟨by decide, by decide⟩, fun _ => trivial⟩
  | set fld val => exact calm_set fld val
  | updtRng => exact ⟨⟨by decide, by decide⟩, fun _ => ⟨trivial, fun _ => ⟨trivial, fun _ => trivial⟩⟩⟩
  | writeFifo data sz => cases hc
  | writeFifoPtr offset => exact ⟨calm_write (n := 3) (by decide) rfl, fun _ => trivial⟩
  | writeLoraIrqMask d e =>
    exact ⟨⟨by decide, by decide⟩, fun _ => ⟨calm_write (n := 1) (by decide) rfl, fun _ => trivial⟩⟩
  | writeLoraIrqFlags c => cases hc
  | writeOpMode m => cases hc
  | writeStngs forRx => exact calm_writeStngs forRx
  | writeSleepStngs => exact calm_writeSleepStngs

end Programs

/-! Calls and their accesses. -/

section Calls
variable {p : Platform} {α : Type}

theorem inLayer_busy {q : RadioProg α} (h : ¬ q.Busy) : ¬ q.inLayer.Busy := by
  cases q with
  | ret a =>
    rintro ⟨_, _, h⟩
    cases h
  | call o k => exact absurd ⟨o, k, rfl⟩ h

theorem inLayer_allButLast {q : RadioProg α} (h : q.AllButLast RadioOp.Calm) :
    Atomic (fineLayer p) q.inLayer := by
  induction q with
  | ret a => trivial
  | call o k ih =>
    rcases h with hlast | ⟨ho, hk⟩
    · exact Or.inl fun r => inLayer_busy (hlast r)
    · exact Or.inr ⟨access_putOff ho, fun r => ih r (hk r)⟩

/-- Left to itself a program does in the layer what its accesses do. -/
theorem alone_inLayer {q : RadioProg α} {w w' : World} {a : α} :
    Alone (fineLayer p) q.inLayer w a w' ↔ q.interp (World.access p) w = (a, w') := by
  induction q generalizing w with
  | ret b =>
    constructor
    · intro h
      cases h
      rfl
    · intro h
      cases h
      exact .ret _ _
  | call o k ih =>
    constructor
    · intro h
      cases h with
      | call hx hrest =>
        cases hx
        exact (ih _).mp hrest
    · intro h
      exact .call (c := .plain) rfl ((ih _).mpr h)

/-- What calm accesses do to the driver they do to the layer's. -/
theorem interp_access {q : RadioProg α} (hq : q.Calls RadioOp.Calm) (w : World) :
    q.interp (World.access p) w =
      ((q.runs p.target w.radio).1, w.setRadio (q.runs p.target w.radio).2) := by
  induction q generalizing w with
  | ret a => rfl
  | call o k ih =>
    rw [Prog.interp, access_calm hq.1, ih _ (hq.2 _)]
    rfl

/-- A call with its accesses, and what it does in one step. -/
structure Refined (p : Platform) (o : Call) (q : RadioProg o.Res) : Prop where
  busy : q.Busy
  atomic : q.AllButLast RadioOp.Calm
  does : ∀ ch w, o.exec p ch w = some (q.interp (World.access p) w)

theorem refined_calm {o : Call} {q : RadioProg o.Res} (hb : q.Busy)
    (hq : q.Calls RadioOp.Calm)
    (h : ∀ ch w, o.exec p ch w = some ((q.runs p.target w.radio).1,
      w.setRadio (q.runs p.target w.radio).2)) : Refined p o q where
  busy := hb
  atomic := hq.allButLast
  does := fun ch w => (h ch w).trans (congrArg some (interp_access hq w).symm)

/-- A single access is the last. -/
theorem allButLast_op {φ : RadioOp → Prop} (o : RadioOp) : (RadioProg.op o).AllButLast φ := by
  refine Or.inl fun r => ?_
  rintro ⟨_, _, h⟩
  cases h

theorem refined_radio {c : RadioCall} (hc : c ≠ .initRadio) :
    Refined p (.radio c) (c.prog p.target) := by
  have hcalm : c.Calm → (c.prog p.target).Busy → (∀ ch w, Call.exec p (.radio c) ch w =
      some ((), w.setRadio (c.exec p.target w.radio))) →
      Refined p (.radio c) (c.prog p.target) := by
    intro hcalm hb hx
    refine refined_calm hb (calm_prog hcalm) fun ch w => ?_
    rw [hx, runs_prog]
  cases c with
  | initRadio => exact absurd rfl hc
  | writeFifo data sz =>
    exact ⟨⟨_, _, rfl⟩, allButLast_op _, fun _ _ => rfl⟩
  | writeLoraIrqFlags c =>
    exact ⟨⟨_, _, rfl⟩, allButLast_op _, fun _ _ => rfl⟩
  | writeOpMode m =>
    have hatomic : (RadioProg.writeOpMode m).AllButLast RadioOp.Calm :=
      Or.inr ⟨⟨by decide, by decide⟩, fun _ => allButLast_op _⟩
    exact ⟨⟨_, _, rfl⟩, hatomic, fun _ _ => rfl⟩
  | _ => exact hcalm trivial ⟨_, _, rfl⟩ fun _ _ => rfl

theorem alone_whole (o : Call) (w : World) (r : o.Res) (w' : World) :
    Alone (fineLayer p) (Prog.perform (FineCall.whole o)) w r w' ↔
      ∃ ch, (layer p).exec o ch w = some (r, w') := by
  constructor
  · intro h
    cases h with
    | @call _ _ ch _ _ _ _ _ hx hrest =>
      cases hrest
      exact ⟨ch, hx⟩
  · rintro ⟨ch, hx⟩
    exact .call (c := ch) hx (.ret _ _)

/-- What `Call.fine` makes of a call: its accesses, or the call itself. -/
theorem fine_cases (p : Platform) (o : Call) :
    (∃ q, o.fine p = RadioProg.inLayer q ∧ Refined p o q) ∨
      o.fine p = Prog.perform (FineCall.whole o) := by
  cases o with
  | radio c =>
    cases c with
    | initRadio => exact Or.inr rfl
    | _ => exact Or.inl ⟨_, rfl, refined_radio (by intro h; cases h)⟩
  | pinReset => exact Or.inl ⟨_, rfl, ⟨_, _, rfl⟩, allButLast_op _, fun _ _ => rfl⟩
  | resetRdoStngs =>
    refine Or.inl ⟨_, rfl, refined_calm ⟨_, _, rfl⟩ (calm_reset _) fun ch w => ?_⟩
    rw [runs_resetAll]
    rfl
  | validateChip =>
    exact Or.inl ⟨_, rfl, refined_calm ⟨_, _, rfl⟩ ⟨⟨by decide, by decide⟩, fun _ => trivial⟩
      fun _ _ => rfl⟩
  | noteLoraMode =>
    exact Or.inl ⟨_, rfl, refined_calm ⟨_, _, rfl⟩ ⟨trivial, fun _ => trivial⟩ fun _ _ => rfl⟩
  | stngsRequireSleep =>
    exact Or.inl ⟨_, rfl, refined_calm ⟨_, _, rfl⟩ (calls_outstanding (fun _ => trivial) (fun _ => trivial) _) fun _ _ => rfl⟩
  | _ => exact Or.inr rfl

/-- The layer with atomic calls and the one with accesses. -/
theorem layer_expands (p : Platform) : Expands (layer p) (fineLayer p) (Call.fine p) where
  env := rfl
  body := fun _ => rfl
  busy := fun o => by
    rcases fine_cases p o with ⟨q, hq, href⟩ | hq
    · obtain ⟨o', k, hb⟩ := href.busy
      rw [hq, hb]
      exact ⟨_, _, rfl⟩
    · rw [hq]
      exact ⟨_, _, rfl⟩
  atomic := fun o => by
    rcases fine_cases p o with ⟨q, hq, href⟩ | hq
    · rw [hq]
      exact inLayer_allButLast href.atomic
    · rw [hq]
      refine Or.inl fun r => ?_
      rintro ⟨_, _, h⟩
      cases h
  does := fun o w r w' => by
    rcases fine_cases p o with ⟨q, hq, href⟩ | hq
    · rw [hq, alone_inLayer]
      constructor
      · intro h
        exact ⟨.plain, (href.does .plain w).trans (congrArg some h)⟩
      · rintro ⟨ch, hx⟩
        exact Option.some.inj ((href.does ch w).symm.trans hx)
    · rw [hq]
      exact alone_whole o w r w'

end Calls

theorem fineStarted_expand (p : Platform) {c' : FineConfig} (h : FineStarted p c') :
    ∃ c, Started c ∧ c' = c.expand (Call.fine p) := by
  obtain ⟨w, q⟩ := c'
  obtain ⟨hw, uninit, hq⟩ := h
  exact ⟨⟨w, mainStart uninit⟩, ⟨hw, uninit, rfl⟩, congrArg (Config.mk w) hq⟩

theorem calls_not_wait (p : Platform) {o : Call} (ho : o ≠ .flagsWaitAny) :
    (o.fine p).Calls (· ≠ FineCall.whole .flagsWaitAny) := by
  have hlayer : ∀ {α : Type} (q : RadioProg α),
      q.inLayer.Calls (· ≠ FineCall.whole .flagsWaitAny) := by
    intro α q
    induction q with
    | ret a => trivial
    | call o k ih => exact ⟨(by intro h; cases h), ih⟩
  rcases fine_cases p o with ⟨q, hq, _⟩ | hq
  · rw [hq]
    exact hlayer q
  · rw [hq]
    refine ⟨fun h => ho ?_, fun _ => trivial⟩
    cases h
    rfl

/-- Between any two accesses of the driver, whatever comes in between, the layer is part
of the way through a call of a run with atomic calls. -/
theorem fineLayer_within (p : Platform) {c' : FineConfig}
    (h : (fineLayer p).Reach (FineStarted p) (fun _ _ => True) c') :
    ∃ c, (layer p).Reach Started (fun _ _ => True) c ∧
      Within (fineLayer p) (Call.fine p) c' c :=
  reach_within (layer_expands p) (fun _ hc => fineStarted_expand p hc) h

/-- The layer waits in the same worlds whether its calls of the driver are atomic or are
interrupted between any two accesses. -/
theorem fineLayer_waits_iff (p : Platform) (w : World) :
    (∃ c', (fineLayer p).Reach (FineStarted p) (fun _ _ => True) c' ∧
        c'.prog.nextOp = some (.whole .flagsWaitAny) ∧ c'.world = w) ↔
      ∃ c, (layer p).Reach Started (fun _ _ => True) c ∧
        c.prog.nextOp = some .flagsWaitAny ∧ c.world = w := by
  constructor
  · rintro ⟨c', hc', hwait, rfl⟩
    obtain ⟨c, hc, hwithin⟩ := fineLayer_within p hc'
    have hsingle : ∃ k, Call.fine p .flagsWaitAny = .call (FineCall.whole .flagsWaitAny) k ∧
        ∀ r, ¬ (k r).Busy := by
      refine ⟨_, rfl, fun r => ?_⟩
      rintro ⟨_, _, h⟩
      cases h
    obtain ⟨ho, hw⟩ := hwithin.at_single hsingle (fun o ho => calls_not_wait p ho) hwait
    exact ⟨c, hc, ho, hw⟩
  · rintro ⟨c, hc, hwait, rfl⟩
    have hfine : (fineLayer p).Reach (FineStarted p) (fun _ _ => True) (c.expand (Call.fine p)) := by
      refine reach_expand (layer_expands p) (fun c hc => ?_) hc
      obtain ⟨hw, uninit, hq⟩ := hc
      exact ⟨hw, uninit, congrArg (Prog.expand (Call.fine p)) hq⟩
    refine ⟨_, hfine, ?_, rfl⟩
    obtain ⟨w, q⟩ := c
    cases q with
    | ret l => cases hwait
    | call o k =>
      cases hwait
      rfl
