import HeyMacMbed.Cmd
import HeyMacMbed.FramePool
import HeyMacMbed.Ident
import HeyMacMbed.RadioCalls
import HeyMacMbed.Threads

/-!
# The layer's thread

The event loop and its state handlers as a program of atomic calls. Ticker,
button, radio pins and other threads act between any two of them: they post
thread flags, make frames and delete them, append them to the queue and change them.
-/

open Bits Octets Threads

/-! The event flags. -/

def evtNone : BitVec 32 := 0
def evtThrdInit : BitVec 32 := 1 <<< 0
def evtThrdPrdc : BitVec 32 := 1 <<< 2
def evtSmEnter : BitVec 32 := 1 <<< 3
def evtSmNext : BitVec 32 := 1 <<< 4
def evtDioModeRdy : BitVec 32 := 1 <<< 5
def evtDioCadDetected : BitVec 32 := 1 <<< 6
def evtDioCadDone : BitVec 32 := 1 <<< 7
def evtDioFhssChgChnl : BitVec 32 := 1 <<< 8
def evtDioRxTmout : BitVec 32 := 1 <<< 9
def evtDioRxDone : BitVec 32 := 1 <<< 10
def evtDioClkOut : BitVec 32 := 1 <<< 11
def evtDioPllLock : BitVec 32 := 1 <<< 12
def evtDioValidHdr : BitVec 32 := 1 <<< 13
def evtDioTxDone : BitVec 32 := 1 <<< 14
def evtDioPayldCrcErr : BitVec 32 := 1 <<< 15
def evtTxRdy : BitVec 32 := 1 <<< 16
def evtBtn : BitVec 32 := 1 <<< 17
def evtAll : BitVec 32 := (evtBtn <<< 1) - 1

def thrdPrdcMs : BitVec 32 := 100

/-- `sig_to_evt_lut` of `_evt_dio`. -/
def SigDio.evt : SigDio → BitVec 32
  | .modeRdy => evtDioModeRdy
  | .cadDetected => evtDioCadDetected
  | .cadDone => evtDioCadDone
  | .fhssChgChnl => evtDioFhssChgChnl
  | .rxTmout => evtDioRxTmout
  | .rxDone => evtDioRxDone
  | .clkOut => evtDioClkOut
  | .pllLock => evtDioPllLock
  | .validHdr => evtDioValidHdr
  | .txDone => evtDioTxDone
  | .payldCrcErr => evtDioPayldCrcErr

inductive SmRet where
  | handled | ignored | tran
  deriving DecidableEq

/-- The state handlers `_st_handler` may point to. -/
inductive St where
  | initing | setting | lstning | rxing | txing
  deriving DecidableEq

/-- A `HeyMacFrame *`: a frame the layer made, by its number, or one of another thread. -/
inductive FrmRef where
  | own (n : Nat)
  | ext (n : Nat)
  deriving DecidableEq

structure TxData where
  frm : FrmRef
  atTimeMs : BitVec 32
  deriving DecidableEq

/-- The layer object with what hangs on it; `others` is the number of pool blocks that
frames of other threads hold. From `opMode` on the fields are history: the last commanded
op mode, the frame being received, the frames ever queued and
those written to the FIFO, the frames of the layer created and not destroyed, those not
queued yet, the frame popped last, and how many ASAP enqueues of other threads
have still to post their flag. -/
structure World where
  flags : BitVec 32
  ticker : Bool
  stHandler : St
  txQueue : List TxData
  radio : SX127xRadio
  hmIdent : HeyMacIdent
  frames : FrmRef → HeyMacFrame
  others : Nat
  starting : Bool
  opMode : Option OpMode
  rxBusy : Bool
  enqueued : List FrmRef
  written : List FrmRef
  live : List Nat
  making : List Nat
  sending : Option FrmRef
  halfDone : Nat

namespace World

def post (w : World) (f : BitVec 32) : World := { w with flags := w.flags ||| f }

/-- `_tx_queue.push_back`. -/
def pushBack (w : World) (d : TxData) : World :=
  { w with txQueue := w.txQueue ++ [d], enqueued := w.enqueued ++ [d.frm] }

def setRadio (w : World) (r : SX127xRadio) : World := { w with radio := r }

/-- The interrupt flag `m` of the chip is latched. -/
def latched (w : World) (m : Octet) : Bool := has (w.radio.chip.regs regLoraIrqFlags) m

/-- The chip latches an interrupt flag and posts its event if it was clear. -/
def latch (w : World) (m : Octet) (evt : BitVec 32) : World :=
  let regs := w.radio.chip.regs
  let regs := Function.update regs regLoraIrqFlags (regs regLoraIrqFlags ||| m)
  let w' := w.setRadio { w.radio with chip := { w.radio.chip with regs := regs } }
  if w.latched m then w' else w'.post evt

end World

/-- What the build and the libraries supply. -/
structure Platform where
  target : Target
  rfFreqHz : BitVec 32
  sha512 : List Octet → List Octet

/-- The layer's calls on what it shares with others. -/
inductive Call where
  | flagsWaitAny
  | attachTicker
  | getStHandler
  | setStHandler (st : St)
  | flagsSet (f : BitVec 32)
  | parseCredFile
  | pinReset
  | resetRdoStngs
  | validateChip
  | noteLoraMode
  | radio (c : RadioCall)
  | stngsRequireSleep
  | txQueueEmpty
  | txQueueFront
  | txQueuePopFront
  | txQueuePushBack (d : TxData)
  | writeFifo (frm : FrmRef)
  | stackArray
  | copyTacIdInto (tacId : Mem)
  | getLongAddr
  | strlen (s : Mem)
  | newFrame
  | onFrame (frm : FrmRef) (f : HeyMacFrame → HeyMacFrame)

@[reducible] def Call.Res : Call → Type
  | .flagsWaitAny => BitVec 32
  | .getStHandler => St
  | .stngsRequireSleep => Bool
  | .txQueueEmpty => Bool
  | .txQueueFront => TxData
  | .stackArray => Mem
  | .copyTacIdInto _ => Mem
  | .getLongAddr => BitVec 64
  | .strlen _ => Nat
  | .newFrame => FrmRef
  | _ => Unit

/-- What a call finds in memory nobody has initialised, in the credential file, and as
the length of a string. -/
structure Choice where
  mem : Mem
  cred : Credentials
  len : Nat

/-- The effect of a call; `none` where it does not return (yet): waiting without flags,
or an assertion or a dereference that fails. -/
def Call.exec (p : Platform) : (o : Call) → Choice → World → Option (o.Res × World)
  | .flagsWaitAny, _, w =>
    if has w.flags evtAll then
      some (w.flags, { w with flags := w.flags &&& ~~~evtAll })
    else none
  | .attachTicker, _, w => some ((), { w with ticker := true })
  | .getStHandler, _, w => some (w.stHandler, w)
  | .setStHandler st, _, w => some ((), { w with stHandler := st })
  | .flagsSet f, _, w => some ((), w.post f)
  | .parseCredFile, ch, w =>
    some ((), { w with hmIdent := w.hmIdent.parseCredFile p.sha512 ch.mem ch.cred })
  | .pinReset, _, w => some ((), w.setRadio (w.radio.pinReset p.target))
  | .resetRdoStngs, _, w => some ((), w.setRadio w.radio.resetRdoStngs)
  | .validateChip, _, w => some ((), w.setRadio w.radio.validateChip)
  | .noteLoraMode, _, w => some ((), w.setRadio w.radio.noteLoraMode)
  | .radio (.writeOpMode m), _, w =>
    some ((), { w with radio := w.radio.writeOpMode m, opMode := some m, rxBusy := false })
  | .radio c, _, w => some ((), w.setRadio (c.exec p.target w.radio))
  | .stngsRequireSleep, _, w => some (w.radio.stngsRequireSleep, w)
  | .txQueueEmpty, _, w => some (w.txQueue.isEmpty, w)
  | .txQueueFront, _, w => w.txQueue.head?.map fun d => (d, w)
  | .txQueuePopFront, _, w =>
    w.txQueue.head?.map fun d =>
      ((), { w with txQueue := w.txQueue.tail, sending := some d.frm })
  | .txQueuePushBack d, _, w =>
    match d.frm with
    | .own n => some ((), { w.pushBack d with making := w.making.erase n })
    | .ext _ => some ((), w.pushBack d)
  | .writeFifo frm, _, w =>
    let f := w.frames frm
    let x := w.radio.writeFifo f.buf f.getBufSz.toNat
    some ((), { w with
      radio := x.2
      frames := Function.update w.frames frm { f with buf := x.1 }
      written := w.written ++ [frm] })
  | .stackArray, ch, w => some (ch.mem, w)
  | .copyTacIdInto tacId, _, w => some (w.hmIdent.copyTacIdInto tacId, w)
  | .getLongAddr, _, w => some (w.hmIdent.getLongAddr, w)
  | .strlen s, ch, w => if s ch.len = 0 ∧ ∀ k < ch.len, s k ≠ 0 then some (ch.len, w) else none
  | .newFrame, ch, w =>
    if w.live.length + w.others < FramePool.poolCnt then
      let n := w.live.foldl max 0 + 1
      some (.own n, { w with
        frames := Function.update w.frames (.own n) (HeyMacFrame.new ch.mem)
        live := w.live ++ [n]
        making := w.making ++ [n] })
    else none
  | .onFrame frm f, _, w =>
    some ((), { w with frames := Function.update w.frames frm (f (w.frames frm)) })

abbrev LayerProg (α : Type) := Prog Call.Res α

/-- A call on the shared world. -/
abbrev perform (o : Call) : LayerProg o.Res := Prog.perform o

/-- Do nothing and go on. -/
abbrev skip : LayerProg Unit := pure ()

namespace HeyMacLayer

/-- `SM_TRAN(next_st_clbk)`. -/
def smTran (st : St) : LayerProg SmRet := do
  perform (.setStHandler st)
  pure .tran

def enqTxFrame (frm : FrmRef) (txTime : BitVec 32) : LayerProg Unit := do
  perform (.txQueuePushBack ⟨frm, txTime⟩)
  if txTime = 0 then perform (.flagsSet evtTxRdy) else skip

/-- `init_radio`, whose callback is `_evt_dio`. -/
def initRadio : LayerProg Unit := do
  perform .pinReset
  perform .resetRdoStngs
  perform .validateChip
  perform (.radio (.writeOpMode .sleep))
  perform (.radio (.set .rdoLoraMode 1))
  perform (.radio .writeSleepStngs)
  perform (.radio (.writeOpMode .stby))
  perform .noteLoraMode

variable (p : Platform)

def stIniting (evtFlags : BitVec 32) : LayerProg SmRet :=
  if has evtFlags evtThrdInit then do
    perform .parseCredFile
    initRadio
    perform (.radio (.set .rdoLoraMode 1))
    perform (.radio (.set .rdoFreqHz p.rfFreqHz))
    perform (.radio (.set .rdoMaxPwr 7))
    perform (.radio (.set .rdoPaBoost 1))
    perform (.radio (.set .loraBw 8))
    perform (.radio (.set .loraSf 7))
    perform (.radio (.set .loraCr 2))
    perform (.radio (.set .loraCrcEn 1))
    perform (.radio (.set .loraSyncWord 0x48))
    smTran .setting
  else pure .ignored

def stSetting (evtFlags : BitVec 32) : LayerProg SmRet :=
  if has evtFlags evtSmEnter then do
    let sleep ← perform .stngsRequireSleep
    if sleep then do
      perform (.radio (.writeOpMode .sleep))
      pure .handled
    else do
      perform (.flagsSet evtSmNext)
      pure .handled
  else if has evtFlags evtDioModeRdy then do
    perform (.radio .writeSleepStngs)
    perform (.flagsSet evtSmNext)
    pure .handled
  else if has evtFlags evtSmNext then do
    perform (.radio (.writeOpMode .stby))
    let empty ← perform .txQueueEmpty
    if !empty then do
      perform (.radio (.set .rdoDio0 1))
      perform (.radio (.writeStngs false))
      smTran .txing
    else do
      perform (.radio (.set .rdoDio0 0))
      perform (.radio (.set .rdoDio1 0))
      perform (.radio (.set .rdoDio3 1))
      perform (.radio (.writeStngs true))
      smTran .lstning
  else pure .ignored

/-- The interrupts of reception. -/
def rxIrqs : Octet := loraIrqRxDone ||| loraIrqPayldCrcErr ||| loraIrqValidHeader

/-- The button branch of `_st_lstning`. -/
def onBtn : LayerProg SmRet := do
  let tacId ← perform .stackArray
  let tacId ← perform (.copyTacIdInto tacId)
  let frm ← perform .newFrame
  perform (.onFrame frm (·.setProtocol .csmaV0))
  let longAddr ← perform .getLongAddr
  perform (.onFrame frm (·.setSrcAddr64 longAddr))
  let sz ← perform (.strlen tacId)
  perform (.onFrame frm fun f => (HeyMacCmd.cmdTxt f tacId (BitVec.ofNat 8 sz)).2)
  enqTxFrame frm 0
  pure .handled

/-- `_tx_bcn()`, which nothing calls yet. -/
def txBcn : LayerProg Unit := do
  let frm ← perform .newFrame
  perform (.onFrame frm (·.setProtocol .csmaV0))
  let longAddr ← perform .getLongAddr
  perform (.onFrame frm (·.setSrcAddr64 longAddr))
  perform (.onFrame frm fun f => (HeyMacCmd.cmdCbcn f 0xCA 0x00).2)
  enqTxFrame frm 0

def stLstning (evtFlags : BitVec 32) : LayerProg SmRet :=
  if has evtFlags evtSmEnter then do
    perform (.radio (.writeLoraIrqMask loraIrqAll rxIrqs))
    perform (.radio (.writeLoraIrqFlags rxIrqs))
    perform (.radio (.writeFifoPtr 0x00))
    perform (.radio (.writeOpMode .rxcont))
    pure .handled
  else if has evtFlags evtThrdPrdc then do
    perform (.radio .updtRng)
    pure .handled
  else if has evtFlags evtTxRdy then do
    perform (.radio (.writeOpMode .stby))
    smTran .setting
  else if has evtFlags evtBtn then onBtn
  else if has evtFlags evtDioValidHdr then smTran .rxing
  else pure .ignored

def stRxing (evtFlags : BitVec 32) : LayerProg SmRet :=
  if has evtFlags evtSmEnter then pure .ignored
  else if has evtFlags evtDioRxDone then smTran .setting
  else pure .ignored

def stTxing (evtFlags : BitVec 32) : LayerProg SmRet :=
  if has evtFlags evtSmEnter then do
    perform (.radio (.writeLoraIrqMask loraIrqAll loraIrqTxDone))
    perform (.radio (.writeLoraIrqFlags loraIrqTxDone))
    perform (.radio (.writeFifoPtr 0x00))
    let txData ← perform .txQueueFront
    perform .txQueuePopFront
    let frm := txData.frm
    perform (.writeFifo frm)
    perform (.radio (.writeOpMode .tx))
    pure .handled
  else if has evtFlags evtDioTxDone then smTran .setting
  else pure .ignored

def handler : St → BitVec 32 → LayerProg SmRet
  | .initing => stIniting p
  | .setting => stSetting
  | .lstning => stLstning
  | .rxing => stRxing
  | .txing => stTxing

/-- The locals of `_main`. -/
structure Locals where
  retval : SmRet
  evtFlags : BitVec 32
  evtFlagEnter : BitVec 32

/-- What `_main` does before its loop; `uninit` is `evt_flags` before any assignment. -/
def mainStart (uninit : BitVec 32) : LayerProg Locals := do
  perform (.setStHandler .initing)
  pure ⟨.ignored, uninit, evtNone⟩

/-- After a transition the loop does not wait. -/
def nextFlags (l : Locals) : LayerProg (BitVec 32) :=
  if l.retval ≠ .tran then perform .flagsWaitAny else pure l.evtFlags

/-- `_main` on the thread's init event. -/
def onInit (evtFlags : BitVec 32) : LayerProg Unit :=
  if has evtFlags evtThrdInit then
    (if thrdPrdcMs > 0 then perform .attachTicker else skip)
  else skip

/-- One round of `_main`'s loop. -/
def mainLoop (l : Locals) : LayerProg Locals := do
  let evtFlags ← nextFlags l
  onInit evtFlags
  let stHandler ← perform .getStHandler
  let retval ← handler p stHandler (evtFlags ||| l.evtFlagEnter)
  pure ⟨retval, 0, if retval = .tran then evtSmEnter else 0⟩

end HeyMacLayer

/-! What happens around the layer's thread. -/

inductive Event where
  | threadStarted
  | tick
  | btn
  | dio (sig : SigDio)
  | pushBack (frm : Nat) (txTime : BitVec 32)
  | postTxRdy
  | newFrame
  | deleteFrame
  | changeFrame (frm : FrmRef) (f : HeyMacFrame)
  | validHeader
  | rxDone

/-- `thread_start` posts its flag once, the ticker once attached; `enq_tx_frame` of
another thread appends and, if ASAP, later posts; another thread's `HeyMacFrame()` takes
a block of the same pool, its `~HeyMacFrame()` frees one; the chip receives in RXCONT,
the header of a frame first. -/
def Event.exec : Event → World → Option World
  | .threadStarted, w =>
    if w.starting then some { w.post evtThrdInit with starting := false } else none
  | .tick, w => if w.ticker then some (w.post evtThrdPrdc) else none
  | .btn, w => some (w.post evtBtn)
  | .dio sig, w => some (w.post sig.evt)
  | .pushBack frm txTime, w =>
    some { w.pushBack ⟨.ext frm, txTime⟩ with
      halfDone := if txTime = 0 then w.halfDone + 1 else w.halfDone }
  | .postTxRdy, w =>
    if 0 < w.halfDone then some { w.post evtTxRdy with halfDone := w.halfDone - 1 } else none
  | .newFrame, w =>
    if w.live.length + w.others < FramePool.poolCnt then some { w with others := w.others + 1 }
    else none
  | .deleteFrame, w => if 0 < w.others then some { w with others := w.others - 1 } else none
  | .changeFrame frm f, w => some { w with frames := Function.update w.frames frm f }
  | .validHeader, w =>
    if w.opMode = some .rxcont then
      some { w.latch loraIrqValidHeader evtDioValidHdr with rxBusy := true }
    else none
  | .rxDone, w =>
    if w.rxBusy then some { w.latch loraIrqRxDone evtDioRxDone with rxBusy := false } else none

/-- The layer's thread in its surroundings. -/
def layer (p : Platform) : System Call.Res World Event Choice HeyMacLayer.Locals where
  exec := Call.exec p
  env := Event.exec
  body := HeyMacLayer.mainLoop p

abbrev LayerConfig := Config Call.Res World HeyMacLayer.Locals

/-- Right after construction: nothing posted, queued or commanded yet. Driver, chip,
identity, frames, what other threads have of the pool and `_st_handler` are arbitrary. -/
structure World.Fresh (w : World) : Prop where
  flags : w.flags = 0
  ticker : w.ticker = false
  txQueue : w.txQueue = []
  starting : w.starting = true
  opMode : w.opMode = none
  rxBusy : w.rxBusy = false
  enqueued : w.enqueued = []
  written : w.written = []
  live : w.live = []
  making : w.making = []
  sending : w.sending = none
  halfDone : w.halfDone = 0

/-- `thread_start` has started `_main`. -/
def Started (c : LayerConfig) : Prop :=
  c.world.Fresh ∧ ∃ uninit, c.prog = HeyMacLayer.mainStart uninit

/-! A platform and a start for runs on fixed inputs. -/

def Platform.plain : Platform := ⟨.plain, 432550000, fun _ => []⟩

/-- No card: the tactical id comes to four octets. -/
def Choice.plain : Choice := ⟨fun _ => 0, .notMounted, 4⟩

def World.plain : World where
  flags := 0
  ticker := false
  stHandler := .initing
  txQueue := []
  radio := .zeroed
  hmIdent := ⟨fun _ => 0, fun _ => 0, fun _ => 0⟩
  frames := fun _ => HeyMacFrame.new fun _ => 0
  others := 0
  starting := true
  opMode := none
  rxBusy := false
  enqueued := []
  written := []
  live := []
  making := []
  sending := none
  halfDone := 0

theorem World.plain_fresh : World.plain.Fresh :=
  ⟨rfl, rfl, rfl, rfl, rfl, rfl, rfl, rfl, rfl, rfl, rfl, rfl⟩

def LayerConfig.plain : LayerConfig := ⟨.plain, HeyMacLayer.mainStart 0⟩

theorem LayerConfig.plain_started : Started .plain := ⟨World.plain_fresh, 0, rfl⟩

/-- The thread takes `n` steps. -/
def acts (n : Nat) : List (Label Event Choice) := List.replicate n (.act .plain)

/-- From the start until the loop waits in Lstning. -/
def toLstning : List (Label Event Choice) := .env .threadStarted :: acts 45

def waitsIn (c : LayerConfig) (st : St) : Bool :=
  match c.prog.nextOp with
  | some .flagsWaitAny => c.world.stHandler == st
  | _ => false

theorem waitsIn_spec {c : LayerConfig} {st : St} (h : waitsIn c st = true) :
    c.prog.nextOp = some .flagsWaitAny ∧ c.world.stHandler = st := by
  unfold waitsIn at h
  split at h
  · rename_i ho
    exact ⟨ho, eq_of_beq h⟩
  · cases h

/-- A run on the plain platform whose steps pass a test. -/
theorem reach_plain {guard : LayerConfig → Label Event Choice → Prop}
    {ok : LayerConfig → Label Event Choice → Bool} (hok : ∀ c l, ok c l = true → guard c l)
    (ls : List (Label Event Choice)) (P : LayerConfig → Bool)
    (h : ((layer .plain).run ok LayerConfig.plain ls).any P = true) :
    ∃ c, (layer .plain).Reach Started guard c ∧ P c = true :=
  System.reach_of_any hok LayerConfig.plain_started ls P h

def anyStep : LayerConfig → Label Event Choice → Bool := fun _ _ => true

theorem anyStep_guard (c : LayerConfig) (l : Label Event Choice) (_ : anyStep c l = true) :
    True := trivial

/-- Runs are tested by their environment's actions and by the states they wait in. -/
def testStep (env : Event → Bool) (bad : World → Bool) (c : LayerConfig) :
    Label Event Choice → Bool
  | .env e => env e
  | .act _ => match c.prog.nextOp with
    | some .flagsWaitAny => !bad c.world
    | _ => true

theorem testStep_wait {env : Event → Bool} {bad : World → Bool} {c : LayerConfig} {ch : Choice}
    (h : testStep env bad c (.act ch) = true) (ho : c.prog.nextOp = some .flagsWaitAny) :
    bad c.world = false := by
  simp only [testStep, ho, Bool.not_eq_true'] at h
  exact h
