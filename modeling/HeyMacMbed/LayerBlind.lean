import HeyMacMbed.LayerLoop
import HeyMacMbed.Lockstep
import HeyMacMbed.RadioOps

/-!
# What the layer does is blind to what it carries

Contents of frames, the identity, the times asked for: none of it decides what the layer
does next. Two runs that differ in nothing else are in the same states, send the same
frames at the same moments and have the same registers, but for what is loaded into
the FIFO. The one place where contents can hold the layer up is `strlen` on a text without
an end.
-/

open Bits Octets Threads HeyMacLayer

/-! The driver, blind to the FIFO. -/

namespace Chip

variable {c d : Chip}

theorem store_regs_congr (h : c.regs = d.regs) (addr : RegAddr) (v : Octet) :
    (c.store addr v).regs = (d.store addr v).regs := by
  unfold store
  split
  · exact h
  · split <;> simp only [h]

theorem storeAll_regs_congr (h : c.regs = d.regs) (addr : RegAddr) (vs : List Octet) :
    (c.storeAll addr vs).regs = (d.storeAll addr vs).regs := by
  induction vs generalizing c d addr with
  | nil => exact h
  | cons v vs ih => exact ih (store_regs_congr h addr v) (nextAddr addr)

theorem loadAll_congr (h : c.regs = d.regs) (addr : RegAddr) (n : Nat) :
    c.loadAll addr n = d.loadAll addr n := by
  induction n generalizing addr with
  | zero => rfl
  | succ n ih => rw [loadAll, loadAll, h, ih]

theorem transfer_congr (h : c.regs = d.regs) (mosi : List Octet) :
    (c.transfer mosi).1 = (d.transfer mosi).1 ∧
      (c.transfer mosi).2.regs = (d.transfer mosi).2.regs := by
  cases mosi with
  | nil => exact ⟨rfl, h⟩
  | cons cmd data =>
    have hc : ({ c with xfers := c.xfers ++ [cmd :: data] } : Chip).regs =
        ({ d with xfers := d.xfers ++ [cmd :: data] } : Chip).regs := h
    simp only [transfer]
    split
    · exact ⟨rfl, storeAll_regs_congr hc _ _⟩
    · exact ⟨congrArg (0 :: ·) (loadAll_congr hc _ _), h⟩

end Chip

namespace LayerBlind

/-- Two drivers with their chips, but for the FIFO and the transfers on record. -/
structure SameRadio (r r' : SX127xRadio) : Prop where
  stngs : r.rdoStngs = r'.rdoStngs
  freq : r.rdoStngsFreq = r'.rdoStngsFreq
  applied : r.rdoStngsApplied = r'.rdoStngsApplied
  freqApplied : r.rdoStngsFreqApplied = r'.rdoStngsFreqApplied
  rng : r.rngRaw = r'.rngRaw
  regs : r.chip.regs = r'.chip.regs

section Radio
variable {r r' : SX127xRadio} (h : SameRadio r r')
include h

theorem SameRadio.readReg (addr : RegAddr) :
    (r.readReg addr).1 = (r'.readReg addr).1 ∧
      SameRadio (r.readReg addr).2 (r'.readReg addr).2 := by
  obtain ⟨hget, hregs⟩ := Chip.transfer_congr h.regs ((addr &&& ~~~0x80) :: List.replicate 1 0)
  refine ⟨?_, { h with regs := hregs }⟩
  exact congrArg (fun bs => (List.drop 1 bs).headD 0) hget

theorem SameRadio.write (addr : RegAddr) (data : List Octet) :
    SameRadio (r.write addr data) (r'.write addr data) :=
  { h with regs := (Chip.transfer_congr h.regs _).2 }

/-- Whatever the two have in their buffers. -/
theorem SameRadio.writeFifo (data data' : Mem) (sz sz' : Nat) :
    SameRadio (r.writeFifo data sz).2 (r'.writeFifo data' sz').2 := by
  have hregs : (r.writeFifo data sz).2.chip.regs = (r'.writeFifo data' sz').2.chip.regs := by
    rw [SX127xRadio.writeFifo_regs, SX127xRadio.writeFifo_regs, h.regs]
  exact { h with regs := hregs }

/-- An access gives the same and leaves the same. -/
theorem SameRadio.exec (t : Target) (o : RadioOp) :
    (o.exec t r).1 = (o.exec t r').1 ∧ SameRadio (o.exec t r).2 (o.exec t r').2 := by
  cases o with
  | stngsInfo fld => exact ⟨rfl, h⟩
  | getStng fld => exact ⟨congrFun h.stngs fld, h⟩
  | putStng fld v =>
    have hput : Function.update r.rdoStngs fld v = Function.update r'.rdoStngs fld v := by
      rw [h.stngs]
    exact ⟨rfl, { h with stngs := hput }⟩
  | getApplied fld => exact ⟨congrFun h.applied fld, h⟩
  | putApplied fld v =>
    have hput : Function.update r.rdoStngsApplied fld v =
        Function.update r'.rdoStngsApplied fld v := by rw [h.applied]
    exact ⟨rfl, { h with applied := hput }⟩
  | getFreq => exact ⟨h.freq, h⟩
  | putFreq freq => exact ⟨rfl, { h with freq := rfl }⟩
  | getFreqApplied => exact ⟨h.freqApplied, h⟩
  | putFreqApplied freq => exact ⟨rfl, { h with freqApplied := rfl }⟩
  | getRng => exact ⟨h.rng, h⟩
  | putRng rng => exact ⟨rfl, { h with rng := rfl }⟩
  | read addr => exact h.readReg addr
  | write addr data => exact ⟨rfl, h.write addr data⟩
  | writeMode opMode reg => exact ⟨rfl, h.write regRdoOpmode [reg]⟩
  | writeFifo data sz => exact ⟨rfl, h.writeFifo data data sz sz⟩
  | pinReset => exact ⟨rfl, { h with regs := rfl }⟩

theorem SameRadio.runs {α : Type} (t : Target) (p : RadioProg α) :
    (p.runs t r).1 = (p.runs t r').1 ∧ SameRadio (p.runs t r).2 (p.runs t r').2 := by
  induction p generalizing r r' with
  | ret a => exact ⟨rfl, h⟩
  | call o k ih =>
    obtain ⟨hres, hnext⟩ := h.exec t o
    have hk := ih (o.exec t r).1 hnext
    have hk' : RadioProg.runs t (k (o.exec t r).1) (o.exec t r').2 =
        RadioProg.runs t (k (o.exec t r').1) (o.exec t r').2 := by rw [hres]
    rw [hk'] at hk
    exact hk

theorem SameRadio.call (t : Target) (c : RadioCall) :
    SameRadio (c.exec t r) (c.exec t r') := by
  have hruns := (h.runs t (c.prog t)).2
  rwa [runs_prog, runs_prog] at hruns

end Radio

/-! The layer, blind to what it carries. -/

/-- Two worlds that differ in contents only: frames, the identity, the times asked for. -/
structure Twins (w w' : World) : Prop where
  flags : w.flags = w'.flags
  ticker : w.ticker = w'.ticker
  stHandler : w.stHandler = w'.stHandler
  queue : w.txQueue.map TxData.frm = w'.txQueue.map TxData.frm
  radio : SameRadio w.radio w'.radio
  starting : w.starting = w'.starting
  opMode : w.opMode = w'.opMode
  rxBusy : w.rxBusy = w'.rxBusy
  enqueued : w.enqueued = w'.enqueued
  written : w.written = w'.written
  live : w.live = w'.live
  making : w.making = w'.making
  sending : w.sending = w'.sending
  others : w.others = w'.others
  halfDone : w.halfDone = w'.halfDone

/-- The same call, whatever contents it is given. -/
inductive SameCall : Call → Call → Prop where
  | same (o : Call) : SameCall o o
  | onFrame (frm : FrmRef) (f f' : HeyMacFrame → HeyMacFrame) :
      SameCall (.onFrame frm f) (.onFrame frm f')
  | copyTacIdInto (m m' : Mem) : SameCall (.copyTacIdInto m) (.copyTacIdInto m')
  | strlen (s s' : Mem) : SameCall (.strlen s) (.strlen s')

/-- The same result, as far as the layer's next steps may depend on it. -/
def SameRes : (o o' : Call) → o.Res → o'.Res → Prop
  | .flagsWaitAny, .flagsWaitAny, f, f' => f = f'
  | .getStHandler, .getStHandler, st, st' => st = st'
  | .stngsRequireSleep, .stngsRequireSleep, b, b' => b = b'
  | .txQueueEmpty, .txQueueEmpty, b, b' => b = b'
  | .txQueueFront, .txQueueFront, d, d' => d.frm = d'.frm
  | .newFrame, .newFrame, frm, frm' => frm = frm'
  | _, _, _, _ => True

/-- The same event, whatever a frame is changed to and whatever later time is asked for. -/
inductive SameEvent : Event → Event → Prop where
  | same (e : Event) : SameEvent e e
  | pushBack (frm : Nat) (t t' : BitVec 32) : (t = 0 ↔ t' = 0) →
      SameEvent (.pushBack frm t) (.pushBack frm t')
  | changeFrame (frm : FrmRef) (f f' : HeyMacFrame) :
      SameEvent (.changeFrame frm f) (.changeFrame frm f')

/-- The flags of a round that ended without a transition are not looked at again. -/
def SameLocals (l l' : Locals) : Prop :=
  l.retval = l'.retval ∧ l.evtFlagEnter = l'.evtFlagEnter ∧
    (l.retval = .tran → l.evtFlags = l'.evtFlags)

def contents : Likeness Call.Res World Event Locals where
  op := SameCall
  res := SameRes
  world := Twins
  env := SameEvent
  locals := SameLocals
  excused := fun o => ∃ s, o = .strlen s

section Programs
variable {p p' : Platform}

theorem progs_call {α β : Type} {A : α → β → Prop} {o : Call} {k : o.Res → LayerProg α}
    {k' : o.Res → LayerProg β} (hk : ∀ r r', SameRes o o r r' → contents.Progs A (k r) (k' r')) :
    contents.Progs A (perform o >>= k) (perform o >>= k') :=
  Likeness.progs_perform (φ := contents) (SameCall.same o) hk

theorem progs_tran (st : St) : contents.Progs Eq (smTran st) (smTran st) :=
  progs_call fun _ _ _ => .ret rfl

theorem progs_initRadio : contents.Progs (fun _ _ => True) initRadio initRadio := by
  unfold initRadio
  repeat refine progs_call fun _ _ _ => ?_
  exact .ret trivial

theorem progs_initing (hz : p.rfFreqHz = p'.rfFreqHz) (f : BitVec 32) :
    contents.Progs Eq (stIniting p f) (stIniting p' f) := by
  unfold stIniting
  split
  · rw [hz]
    refine progs_call fun _ _ _ => ?_
    refine Likeness.progs_bind progs_initRadio fun _ _ _ => ?_
    repeat refine progs_call fun _ _ _ => ?_
    exact .ret rfl
  · exact .ret rfl

theorem progs_setting (f : BitVec 32) : contents.Progs Eq (stSetting f) (stSetting f) := by
  unfold stSetting
  split
  · refine progs_call fun sleep sleep' hsleep => ?_
    obtain rfl : sleep = sleep' := hsleep
    split
    · exact progs_call fun _ _ _ => .ret rfl
    · exact progs_call fun _ _ _ => .ret rfl
  split
  · refine progs_call fun _ _ _ => ?_
    exact progs_call fun _ _ _ => .ret rfl
  split
  · refine progs_call fun _ _ _ => ?_
    refine progs_call fun empty empty' hempty => ?_
    obtain rfl : empty = empty' := hempty
    split
    · repeat refine progs_call fun _ _ _ => ?_
      exact .ret rfl
    · repeat refine progs_call fun _ _ _ => ?_
      exact .ret rfl
  · exact .ret rfl

theorem progs_onBtn : contents.Progs Eq onBtn onBtn := by
  have onFrame : ∀ {frm f f'} {k k' : Unit → LayerProg SmRet},
      contents.Progs Eq (k ()) (k' ()) →
      contents.Progs Eq (perform (.onFrame frm f) >>= k) (perform (.onFrame frm f') >>= k') :=
    fun hk => Likeness.progs_perform (φ := contents) (SameCall.onFrame _ _ _) fun _ _ _ => hk
  unfold onBtn
  refine progs_call fun stack stack' _ => ?_
  refine Likeness.progs_perform (φ := contents) (SameCall.copyTacIdInto _ _) fun _ _ _ => ?_
  refine progs_call fun frm frm' hfrm => ?_
  obtain rfl : frm = frm' := hfrm
  refine onFrame ?_
  refine progs_call fun _ _ _ => ?_
  refine onFrame ?_
  refine Likeness.progs_perform (φ := contents) (SameCall.strlen _ _) fun _ _ _ => ?_
  refine onFrame ?_
  unfold enqTxFrame
  refine progs_call fun _ _ _ => ?_
  exact progs_call fun _ _ _ => .ret rfl

theorem progs_lstning (f : BitVec 32) : contents.Progs Eq (stLstning f) (stLstning f) := by
  unfold stLstning
  split
  · repeat refine progs_call fun _ _ _ => ?_
    exact .ret rfl
  split
  · exact progs_call fun _ _ _ => .ret rfl
  split
  · exact progs_call fun _ _ _ => progs_tran .setting
  split
  · exact progs_onBtn
  split
  · exact progs_tran .rxing
  · exact .ret rfl

theorem progs_rxing (f : BitVec 32) : contents.Progs Eq (stRxing f) (stRxing f) := by
  unfold stRxing
  split
  · exact .ret rfl
  split
  · exact progs_tran .setting
  · exact .ret rfl

/-- The times asked for are not looked at. -/
theorem progs_txing (f : BitVec 32) : contents.Progs Eq (stTxing f) (stTxing f) := by
  unfold stTxing
  split
  · refine progs_call fun _ _ _ => progs_call fun _ _ _ => progs_call fun _ _ _ => ?_
    refine progs_call fun d d' hd => ?_
    have hd : d.frm = d'.frm := hd
    refine progs_call fun _ _ _ => ?_
    rw [hd]
    refine progs_call fun _ _ _ => ?_
    exact progs_call fun _ _ _ => .ret rfl
  split
  · exact progs_tran .setting
  · exact .ret rfl

theorem progs_handler (hz : p.rfFreqHz = p'.rfFreqHz) (st : St) (f : BitVec 32) :
    contents.Progs Eq (handler p st f) (handler p' st f) := by
  cases st with
  | initing => exact progs_initing hz f
  | setting => exact progs_setting f
  | lstning => exact progs_lstning f
  | rxing => exact progs_rxing f
  | txing => exact progs_txing f

theorem progs_nextFlags {l l' : Locals} (hl : SameLocals l l') :
    contents.Progs Eq (nextFlags l) (nextFlags l') := by
  obtain ⟨hret, _, hflags⟩ := hl
  unfold nextFlags
  rw [← hret]
  by_cases ht : l.retval = .tran
  · rw [if_neg (not_not.mpr ht), if_neg (not_not.mpr ht), hflags ht]
    exact .ret rfl
  · rw [if_pos ht, if_pos ht]
    exact .call (SameCall.same _) fun f f' hf => .ret hf

theorem progs_onInit (f : BitVec 32) :
    contents.Progs (fun _ _ => True) (onInit f) (onInit f) := by
  unfold onInit
  split
  · split
    · exact .call (SameCall.same _) fun _ _ _ => .ret trivial
    · exact .ret trivial
  · exact .ret trivial

theorem progs_mainLoop (hz : p.rfFreqHz = p'.rfFreqHz) {l l' : Locals} (hl : SameLocals l l') :
    contents.Progs SameLocals (mainLoop p l) (mainLoop p' l') := by
  unfold mainLoop
  refine Likeness.progs_bind (progs_nextFlags hl) fun f f' hf => ?_
  obtain rfl : f = f' := hf
  refine Likeness.progs_bind (progs_onInit f) fun _ _ _ => ?_
  refine progs_call fun st st' hst => ?_
  obtain rfl : st = st' := hst
  rw [← hl.2.1]
  refine Likeness.progs_bind (progs_handler hz st _) fun r r' hr => ?_
  obtain rfl : r = r' := hr
  exact .ret ⟨rfl, rfl, fun _ => rfl⟩

end Programs

section Steps
variable {w w' v : World} (h : Twins w w')
include h

theorem Twins.post (f : BitVec 32) : Twins (w.post f) (w'.post f) := by
  have hflags : w.flags ||| f = w'.flags ||| f := by rw [h.flags]
  exact { h with flags := hflags }

theorem Twins.pushBack (d d' : TxData) (hd : d.frm = d'.frm) :
    Twins (w.pushBack d) (w'.pushBack d') := by
  have hqueue : (w.txQueue ++ [d]).map TxData.frm = (w'.txQueue ++ [d']).map TxData.frm := by
    rw [List.map_append, List.map_append, h.queue, List.map_singleton, List.map_singleton, hd]
  have henq : w.enqueued ++ [d.frm] = w'.enqueued ++ [d'.frm] := by rw [h.enqueued, hd]
  exact { h with queue := hqueue, enqueued := henq }

theorem Twins.latch (m : Octet) (evt : BitVec 32) : Twins (w.latch m evt) (w'.latch m evt) := by
  have hregs := h.radio.regs
  have hlatched : w.latched m = w'.latched m := by rw [World.latched, World.latched, hregs]
  have hupd : Function.update w.radio.chip.regs regLoraIrqFlags
      (w.radio.chip.regs regLoraIrqFlags ||| m) =
        Function.update w'.radio.chip.regs regLoraIrqFlags
          (w'.radio.chip.regs regLoraIrqFlags ||| m) := by rw [hregs]
  have hset : ∀ regs regs', regs = regs' →
      Twins (w.setRadio { w.radio with chip := { w.radio.chip with regs := regs } })
        (w'.setRadio { w'.radio with chip := { w'.radio.chip with regs := regs' } }) :=
    fun _ _ hr => { h with radio := { h.radio with regs := hr } }
  unfold World.latch
  rw [← hlatched]
  split
  · exact hset _ _ hupd
  · exact (hset _ _ hupd).post evt

/-- The same event around the thread. -/
theorem Twins.event {e e' : Event} (he : SameEvent e e') (hx : e.exec w = some v) :
    ∃ v', e'.exec w' = some v' ∧ Twins v v' := by
  cases he with
  | pushBack frm t t' ht =>
    cases hx
    have hpush := h.pushBack ⟨.ext frm, t⟩ ⟨.ext frm, t'⟩ rfl
    have hhalf : (if t = 0 then w.halfDone + 1 else w.halfDone) =
        if t' = 0 then w'.halfDone + 1 else w'.halfDone := by simp only [ht, h.halfDone]
    exact ⟨_, rfl, { hpush with halfDone := hhalf }⟩
  | changeFrame frm f f' =>
    cases hx
    exact ⟨_, rfl, { h with }⟩
  | same =>
    cases e with
    | threadStarted =>
      obtain ⟨hs, hx⟩ := Option.ite_none_right_eq_some.mp hx
      cases hx
      exact ⟨_, if_pos (h.starting ▸ hs), { h.post evtThrdInit with starting := rfl }⟩
    | tick =>
      obtain ⟨ht, hx⟩ := Option.ite_none_right_eq_some.mp hx
      cases hx
      exact ⟨_, if_pos (h.ticker ▸ ht), h.post evtThrdPrdc⟩
    | btn =>
      cases hx
      exact ⟨_, rfl, h.post evtBtn⟩
    | dio sig =>
      cases hx
      exact ⟨_, rfl, h.post sig.evt⟩
    | pushBack frm t =>
      cases hx
      have hpush := h.pushBack ⟨.ext frm, t⟩ ⟨.ext frm, t⟩ rfl
      have hhalf : (if t = 0 then w.halfDone + 1 else w.halfDone) =
          if t = 0 then w'.halfDone + 1 else w'.halfDone := by rw [h.halfDone]
      exact ⟨_, rfl, { hpush with halfDone := hhalf }⟩
    | postTxRdy =>
      obtain ⟨hpos, hx⟩ := Option.ite_none_right_eq_some.mp hx
      cases hx
      have hhalf : w.halfDone - 1 = w'.halfDone - 1 := by rw [h.halfDone]
      exact ⟨_, if_pos (h.halfDone ▸ hpos), { h.post evtTxRdy with halfDone := hhalf }⟩
    | newFrame =>
      obtain ⟨hroom, hx⟩ := Option.ite_none_right_eq_some.mp hx
      cases hx
      have hothers : w.others + 1 = w'.others + 1 := by rw [h.others]
      exact ⟨_, if_pos (h.live ▸ h.others ▸ hroom), { h with others := hothers }⟩
    | deleteFrame =>
      obtain ⟨hpos, hx⟩ := Option.ite_none_right_eq_some.mp hx
      cases hx
      have hothers : w.others - 1 = w'.others - 1 := by rw [h.others]
      exact ⟨_, if_pos (h.others ▸ hpos), { h with others := hothers }⟩
    | changeFrame frm f =>
      cases hx
      exact ⟨_, rfl, { h with }⟩
    | validHeader =>
      obtain ⟨hm, hx⟩ := Option.ite_none_right_eq_some.mp hx
      cases hx
      exact ⟨_, if_pos (h.opMode ▸ hm),
        { h.latch loraIrqValidHeader evtDioValidHdr with rxBusy := rfl }⟩
    | rxDone =>
      obtain ⟨hb, hx⟩ := Option.ite_none_right_eq_some.mp hx
      cases hx
      exact ⟨_, if_pos (h.rxBusy ▸ hb), { h.latch loraIrqRxDone evtDioRxDone with rxBusy := rfl }⟩

/-- The frames at the front are the same. -/
theorem Twins.front {d : TxData} (hd : w.txQueue.head? = some d) :
    ∃ d', w'.txQueue.head? = some d' ∧ d.frm = d'.frm ∧
      w.txQueue.tail.map TxData.frm = w'.txQueue.tail.map TxData.frm := by
  have hqueue := h.queue
  obtain ⟨rest, hq⟩ := List.head?_eq_some_iff.mp hd
  rw [hq, List.map_cons] at hqueue
  obtain ⟨d', rest', hq', hfrm, hrest⟩ := List.map_eq_cons_iff.mp hqueue.symm
  exact ⟨d', by rw [hq']; rfl, hfrm.symm, by rw [hq, hq', List.tail_cons, List.tail_cons, hrest]⟩

variable {p p' : Platform} (ht : p.target = p'.target)
include ht

theorem Twins.radioCall {c : RadioCall} {ch : Choice} (ch' : Choice) {r : Unit}
    (hx : Call.exec p (.radio c) ch w = some (r, v)) :
    ∃ v', Call.exec p' (.radio c) ch' w' = some ((), v') ∧ Twins v v' := by
  have hcall := h.radio.call p.target c
  by_cases hc : ∃ m, c = .writeOpMode m
  · obtain ⟨m, rfl⟩ := hc
    cases hx
    exact ⟨_, rfl, { h with radio := hcall, opMode := rfl, rxBusy := rfl }⟩
  · have hmode : ∀ m, c ≠ .writeOpMode m := fun m hm => hc ⟨m, hm⟩
    rw [exec_setRadio hmode hx]
    rw [ht] at hcall ⊢
    generalize c.exec p'.target w.radio = rd at hcall ⊢
    refine ⟨w'.setRadio (c.exec p'.target w'.radio), ?_, { h with radio := hcall }⟩
    cases c with
    | writeOpMode m => exact absurd rfl (hmode m)
    | _ => rfl

/-- The same call, which only a text without an end can hold up. -/
theorem Twins.exec {o o' : Call} (ho : SameCall o o') {ch : Choice} (ch' : Choice)
    {r : o.Res} (hx : Call.exec p o ch w = some (r, v)) :
    (∃ r' v', Call.exec p' o' ch' w' = some (r', v') ∧ SameRes o o' r r' ∧ Twins v v') ∨
      (∃ s, o' = .strlen s) ∧ Call.exec p' o' ch' w' = none := by
  have strlen : ∀ s, (∃ r' v', Call.exec p' (.strlen s) ch' w' = some (r', v') ∧ Twins w v') ∨
      Call.exec p' (.strlen s) ch' w' = none := fun s => by
    by_cases hs : s ch'.len = 0 ∧ ∀ k < ch'.len, s k ≠ 0
    · exact Or.inl ⟨_, _, if_pos hs, h⟩
    · exact Or.inr (if_neg hs)
  cases ho with
  | onFrame frm f f' =>
    cases hx
    exact Or.inl ⟨_, _, rfl, trivial, { h with }⟩
  | copyTacIdInto m m' =>
    cases hx
    exact Or.inl ⟨_, _, rfl, trivial, h⟩
  | strlen s s' =>
    obtain ⟨_, hx⟩ := Option.ite_none_right_eq_some.mp hx
    cases hx
    rcases strlen s' with ⟨r', v', hx', hv⟩ | hnone
    · exact Or.inl ⟨r', v', hx', trivial, hv⟩
    · exact Or.inr ⟨⟨s', rfl⟩, hnone⟩
  | same =>
    cases o with
    | strlen s =>
      obtain ⟨_, hx⟩ := Option.ite_none_right_eq_some.mp hx
      cases hx
      rcases strlen s with ⟨r', v', hx', hv⟩ | hnone
      · exact Or.inl ⟨r', v', hx', trivial, hv⟩
      · exact Or.inr ⟨⟨s, rfl⟩, hnone⟩
    | flagsWaitAny =>
      obtain ⟨hf, hx⟩ := Option.ite_none_right_eq_some.mp hx
      cases hx
      have hclear : w.flags &&& ~~~evtAll = w'.flags &&& ~~~evtAll := by rw [h.flags]
      exact Or.inl ⟨_, _, if_pos (h.flags ▸ hf), h.flags, { h with flags := hclear }⟩
    | attachTicker =>
      cases hx
      exact Or.inl ⟨_, _, rfl, trivial, { h with ticker := rfl }⟩
    | getStHandler =>
      cases hx
      exact Or.inl ⟨_, _, rfl, h.stHandler, h⟩
    | setStHandler st =>
      cases hx
      exact Or.inl ⟨_, _, rfl, trivial, { h with stHandler := rfl }⟩
    | flagsSet f =>
      cases hx
      exact Or.inl ⟨_, _, rfl, trivial, h.post f⟩
    | parseCredFile =>
      cases hx
      exact Or.inl ⟨_, _, rfl, trivial, { h with }⟩
    | pinReset =>
      cases hx
      have hreset : p.target.hwreset = p'.target.hwreset := by rw [ht]
      exact Or.inl ⟨_, _, rfl, trivial, { h with radio := { h.radio with regs := hreset } }⟩
    | resetRdoStngs =>
      cases hx
      exact Or.inl ⟨_, _, rfl, trivial,
        { h with radio := { h.radio with stngs := rfl, applied := rfl } }⟩
    | validateChip =>
      cases hx
      exact Or.inl ⟨_, _, rfl, trivial, { h with radio := (h.radio.readReg _).2 }⟩
    | noteLoraMode =>
      cases hx
      have hnote := (h.radio.exec p.target (.putApplied .rdoLoraMode 1)).2
      exact Or.inl ⟨_, _, rfl, trivial, { h with radio := hnote }⟩
    | radio c =>
      obtain ⟨v', hx', hv⟩ := h.radioCall ht ch' hx
      exact Or.inl ⟨(), v', hx', trivial, hv⟩
    | stngsRequireSleep =>
      cases hx
      have hsleep : w.radio.stngsRequireSleep = w'.radio.stngsRequireSleep := by
        rw [SX127xRadio.stngsRequireSleep, h.radio.stngs, h.radio.applied]
        rfl
      exact Or.inl ⟨_, _, rfl, hsleep, h⟩
    | txQueueEmpty =>
      cases hx
      have hempty : w.txQueue.isEmpty = w'.txQueue.isEmpty := by
        rw [← List.isEmpty_map (f := TxData.frm), h.queue, List.isEmpty_map]
      exact Or.inl ⟨_, _, rfl, hempty, h⟩
    | txQueueFront =>
      obtain ⟨d, hd, hx⟩ := Option.map_eq_some_iff.mp hx
      cases hx
      obtain ⟨d', hd', hfrm, _⟩ := h.front hd
      exact Or.inl ⟨_, _, congrArg (Option.map _) hd', hfrm, h⟩
    | txQueuePopFront =>
      obtain ⟨d, hd, hx⟩ := Option.map_eq_some_iff.mp hx
      cases hx
      obtain ⟨d', hd', hfrm, htail⟩ := h.front hd
      exact Or.inl ⟨_, _, congrArg (Option.map _) hd', trivial,
        { h with queue := htail, sending := congrArg some hfrm }⟩
    | txQueuePushBack d =>
      obtain ⟨frm, t⟩ := d
      have hpush := h.pushBack ⟨frm, t⟩ ⟨frm, t⟩ rfl
      cases frm with
      | own n =>
        cases hx
        have hmaking : w.making.erase n = w'.making.erase n := by rw [h.making]
        exact Or.inl ⟨_, _, rfl, trivial, { hpush with making := hmaking }⟩
      | ext n =>
        cases hx
        exact Or.inl ⟨_, _, rfl, trivial, hpush⟩
    | writeFifo frm =>
      cases hx
      have hwritten : w.written ++ [frm] = w'.written ++ [frm] := by rw [h.written]
      exact Or.inl ⟨_, _, rfl, trivial,
        { h with radio := h.radio.writeFifo _ _ _ _, written := hwritten }⟩
    | stackArray =>
      cases hx
      exact Or.inl ⟨_, _, rfl, trivial, h⟩
    | copyTacIdInto m =>
      cases hx
      exact Or.inl ⟨_, _, rfl, trivial, h⟩
    | getLongAddr =>
      cases hx
      exact Or.inl ⟨_, _, rfl, trivial, h⟩
    | newFrame =>
      obtain ⟨hlt, hx⟩ := Option.ite_none_right_eq_some.mp hx
      cases hx
      have hn : FrmRef.own (w.live.foldl max 0 + 1) = .own (w'.live.foldl max 0 + 1) := by
        rw [h.live]
      have hlive : w.live ++ [w.live.foldl max 0 + 1] =
          w'.live ++ [w'.live.foldl max 0 + 1] := by rw [h.live]
      have hmaking : w.making ++ [w.live.foldl max 0 + 1] =
          w'.making ++ [w'.live.foldl max 0 + 1] := by rw [h.live, h.making]
      exact Or.inl ⟨_, _, if_pos (h.live ▸ h.others ▸ hlt), hn,
        { h with live := hlive, making := hmaking }⟩
    | onFrame frm f =>
      cases hx
      exact Or.inl ⟨_, _, rfl, trivial, { h with }⟩

end Steps

/-- The layers of two platforms with the same radio are in step, as far as contents go. -/
theorem inStep {p p' : Platform} (ht : p.target = p'.target) (hz : p.rfFreqHz = p'.rfFreqHz) :
    contents.InStep (layer p) (layer p') where
  env := fun he hw hx => Twins.event hw he hx
  exec := fun ch' ho hw hx => Twins.exec hw ht ho ch' hx
  body := fun hl => progs_mainLoop hz hl

/-- Every label is like itself. -/
theorem labels_refl (ls : List (Label Event Choice)) : List.Forall₂ contents.Labels ls ls := by
  refine List.forall₂_same.mpr fun l _ => ?_
  cases l with
  | env e => exact SameEvent.same e
  | act ch => exact trivial

/-- The plain start with other frames. -/
def otherFrames : LayerConfig :=
  ⟨{ World.plain with frames := fun _ => HeyMacFrame.new fun _ => 1 }, mainStart 1⟩

/-- A frame is queued while the layer listens, and then changed to `f`. -/
def sends (f : HeyMacFrame) : List (Label Event Choice) :=
  toLstning ++ [.env (.pushBack 0 0), .env (.changeFrame (.ext 0) f), .env .postTxRdy] ++ acts 26

end LayerBlind
