import HeyMacMbed.LayerQueue
import HeyMacMbed.LayerSetting
import HeyMacMbed.Progress

/-!
# Getting through

From wherever the loop waits the radio's answers bring the layer to Setting, and
from there through Txing until the queue is empty. Only Lstning needs a wake-up, so
the next enqueue of any thread sends what is queued before it, with or without the
wake-ups these frames had.
-/

open Bits Octets Threads HeyMacLayer

namespace LayerProgress

/-! Where the loop is when it waits. -/

/-- The calls of the handlers. -/
def ByHandler : Call → Prop
  | .flagsWaitAny | .setStHandler .initing => False
  | _ => True

theorem byHandler_smTran {st : St} (hst : st ≠ .initing) : (smTran st).Calls ByHandler := by
  refine ⟨?_, fun _ => trivial⟩
  cases st <;> trivial

theorem byHandler_enqTxFrame (frm : FrmRef) (t : BitVec 32) :
    (enqTxFrame frm t).Calls ByHandler := by
  refine ⟨trivial, fun _ => ?_⟩
  unfold Prog.bind
  split
  · exact ⟨trivial, fun _ => trivial⟩
  · trivial

theorem byHandler_initRadio : initRadio.Calls ByHandler := by
  repeat' first | trivial | refine calls_perform trivial fun _ => ?_

theorem byHandler_handler (p : Platform) (st : St) (f : BitVec 32) :
    (handler p st f).Calls ByHandler := by
  cases st <;>
    simp only [handler, stIniting, stSetting, stLstning, stRxing, stTxing, onBtn] <;>
    repeat' first
      | refine calls_perform trivial fun _ => ?_
      | split
      | exact byHandler_smTran (by decide)
      | exact Prog.calls_bind (byHandler_enqTxFrame _ _) fun _ => trivial
      | refine Prog.calls_bind byHandler_initRadio fun _ => ?_
      | trivial

/-- The locals after a handler that returned `r`. -/
def next (r : SmRet) : Locals := ⟨r, 0, if r = .tran then evtSmEnter else 0⟩

/-- With these locals the next round waits, with nothing left from the last one. -/
def Waiting (l : Locals) : Prop := l.retval ≠ .tran ∧ l.evtFlagEnter = 0

/-- The round that is over leaves to the next its entry, or nothing. -/
def Good (l : Locals) : Prop := l.retval ≠ .tran → l.evtFlagEnter = 0

theorem next_good (r : SmRet) : Good (next r) := fun hr => if_neg hr

theorem next_waiting {r : SmRet} (hr : r ≠ .tran) : Waiting (next r) := ⟨hr, if_neg hr⟩

/-- A round once it has its flags. -/
def round (p : Platform) (l : Locals) (evtFlags : BitVec 32) : LayerProg Locals := do
  onInit evtFlags
  let stHandler ← perform .getStHandler
  let retval ← handler p stHandler (evtFlags ||| l.evtFlagEnter)
  pure (next retval)

theorem mainLoop_eq (p : Platform) (l : Locals) :
    mainLoop p l = nextFlags l >>= round p l := rfl

theorem Waiting.nextOp {p : Platform} {l : Locals} (hl : Waiting l) :
    (mainLoop p l).nextOp = some .flagsWaitAny := by
  rw [mainLoop_eq, nextFlags, if_pos hl.1]
  rfl

/-- The thread is about to wait, or waits no more in this round. -/
def Located (p : Platform) (q : LayerProg Locals) : Prop :=
  (∃ l, Waiting l ∧ q = mainLoop p l) ∨ q.Calls (· ≠ .flagsWaitAny) ∧ q.Returns Good

theorem round_located (p : Platform) (l : Locals) (f : BitVec 32) :
    (round p l f).Calls (· ≠ .flagsWaitAny) ∧ (round p l f).Returns Good := by
  have hwait : ∀ o, ByHandler o → o ≠ .flagsWaitAny := by
    rintro o ho rfl
    exact ho
  have hinit : (onInit f).Calls (· ≠ .flagsWaitAny) := by
    unfold onInit
    split
    · split
      · exact ⟨by simp, fun _ => trivial⟩
      · trivial
    · trivial
  constructor
  · refine Prog.calls_bind hinit fun _ => ?_
    refine calls_perform (o := .getStHandler) (by simp) fun st => ?_
    exact Prog.calls_bind ((byHandler_handler p st _).mono hwait) fun _ => trivial
  · refine Prog.returns_bind fun _ => Prog.returns_bind fun st => ?_
    exact Prog.returns_bind fun r => next_good r

theorem mainLoop_located (p : Platform) {l : Locals} (hl : Good l) :
    Located p (mainLoop p l) := by
  by_cases ht : l.retval = .tran
  · rw [mainLoop_eq, nextFlags, if_neg (by simp [ht])]
    exact Or.inr (round_located p l l.evtFlags)
  · exact Or.inl ⟨l, ⟨ht, hl ht⟩, rfl⟩

theorem reach_located (p : Platform) {c : LayerConfig}
    (h : (layer p).Reach Started (fun _ _ => True) c) : Located p c.prog := by
  refine Runs.Reach.invariant (I := fun c : LayerConfig => Located p c.prog) ?_ ?_ h
  · rintro ⟨w, q⟩ ⟨_, uninit, rfl⟩
    exact Or.inr ⟨⟨by simp, fun _ => trivial⟩, fun _ _ => rfl⟩
  · rintro ⟨w, q⟩ l c' hloc _ hs
    cases l with
    | env e =>
      obtain ⟨w', _, rfl⟩ := Option.map_eq_some_iff.mp hs
      exact hloc
    | act ch =>
      rcases hloc with ⟨l, hl, rfl⟩ | ⟨hcalls, hret⟩
      · rw [mainLoop_eq, nextFlags, if_pos hl.1] at hs
        obtain ⟨⟨f, w'⟩, _, rfl⟩ := Option.map_eq_some_iff.mp hs
        exact Or.inr (round_located p l f)
      · cases q with
        | ret l =>
          cases hs
          exact mainLoop_located p hret
        | call o k =>
          obtain ⟨⟨r, w'⟩, _, rfl⟩ := Option.map_eq_some_iff.mp hs
          exact Or.inr ⟨hcalls.2 r, hret r⟩

/-- Where the loop waits it has a round to begin. -/
theorem waits_located {p : Platform} {c : LayerConfig}
    (h : (layer p).Reach Started (fun _ _ => True) c)
    (hwait : c.prog.nextOp = some .flagsWaitAny) : ∃ l, Waiting l ∧ c.prog = mainLoop p l := by
  rcases reach_located p h with hloc | ⟨hcalls, _⟩
  · exact hloc
  · obtain ⟨w, q⟩ := c
    cases q with
    | ret l => cases hwait
    | call o k => exact absurd (Option.some.inj hwait) hcalls.1

/-! The init event. -/

/-- The init event is pending or still to be posted. -/
def Starts (w : World) : Prop := w.starting = true ∨ has w.flags evtThrdInit = true

/-- Where the loop waits in Initing the init event is to come. -/
def contract : Contract Call World Event where
  envOk := fun _ _ => True
  opOk := fun _ _ => True
  pre := fun o w => match o with
    | .flagsWaitAny => w.stHandler = .initing → Starts w
    | _ => True

def ct : Contract Call World Event := contract.assuming NoEnter

def Idle (w : World) : Prop := w.stHandler = .initing → Starts w

/-- Initing has the init event among its events `f`, or it is still to come. -/
def Busy (f : BitVec 32) (w : World) : Prop :=
  w.stHandler = .initing → has f evtThrdInit = true ∨ Starts w

theorem event_starts {e : Event} {w w' : World} (h : Starts w) (he : e.exec w = some w') :
    Starts w' := by
  have hkept : has w.flags evtThrdInit = true → has w'.flags evtThrdInit = true :=
    (Event.around he).flags evtThrdInit
  rcases h with hs | hf
  · cases e with
    | threadStarted =>
      obtain ⟨_, he⟩ := Option.ite_none_right_eq_some.mp he
      cases he
      have hself : has evtThrdInit evtThrdInit = true := rfl
      exact Or.inr (by rw [World.post, has_or, hself, Bool.or_true])
    | tick | postTxRdy | newFrame | deleteFrame =>
      obtain ⟨_, he⟩ := Option.ite_none_right_eq_some.mp he
      cases he
      exact Or.inl hs
    | validHeader =>
      obtain ⟨_, he⟩ := Option.ite_none_right_eq_some.mp he
      cases he
      exact Or.inl (by unfold World.latch; split <;> exact hs)
    | rxDone =>
      obtain ⟨_, he⟩ := Option.ite_none_right_eq_some.mp he
      cases he
      exact Or.inl (by unfold World.latch; split <;> exact hs)
    | _ =>
      cases he
      exact Or.inl hs
  · exact Or.inr (hkept hf)

section Init
variable (p : Platform)

theorem starts_stable : Stable (layer p) ct Starts := by
  rintro w w' h ⟨e, _, he⟩
  exact event_starts h he

theorem idle_stable : Stable (layer p) ct Idle :=
  stable_stHandler (P := fun st w => st = .initing → Starts w) fun _ => (starts_stable p).imp

theorem busy_stable (f : BitVec 32) : Stable (layer p) ct (Busy f) := by
  refine stable_stHandler (P := fun st w => st = .initing → _ ∨ Starts w) fun st => Stable.imp ?_
  rintro w w' (h | h) hr
  · exact Or.inl h
  · exact Or.inr (starts_stable p w w' h hr)

/-- Once left, Initing is not set again. -/
def Left (w : World) : Prop := w.stHandler ≠ .initing

theorem left_stable : Stable (layer p) ct Left :=
  stable_of_around fun _ _ ha h => fun he => h (ha.stHandler.symm.trans he)

theorem byHandler_keeps {o : Call} (ho : ByHandler o) : Keeps (layer p) ct Left o := by
  intro w ch r w' h _ hx
  have hs := (exec_frame hx).stHandler
  unfold Left at h ⊢
  rw [hs]
  cases o with
  | setStHandler st =>
    rintro rfl
    exact ho
  | _ => exact h

variable {p}

theorem Left.returned {r : SmRet} {w : World} (h : Left w) : Returned Idle Busy r w := by
  unfold Returned
  split
  · exact fun he => absurd he h
  · exact fun he => absurd he h

theorem handle_left {st : St} {f : BitVec 32} {w : World} (h : Left w) :
    wp (layer p) ct (handler p st f) (Returned Idle Busy) w := by
  refine wp_mono (fun _ _ h => h.returned) (wp_calls (left_stable p) (fun o w h ho => ?_)
    (fun o ho => byHandler_keeps p ho) (byHandler_handler p st f) h)
  cases o with
  | flagsWaitAny => exact fun he => absurd he h
  | _ => trivial

theorem handle_initing {f : BitVec 32} {w : World} (hst : w.stHandler = .initing)
    (hb : Busy f w) : wp (layer p) ct (stIniting p f) (Returned Idle Busy) w := by
  have hpre : ∀ o (w : World), o.Quiet → ct.pre o w := fun o w ho => by cases o <;> trivial
  have hs : Stable (layer p) ct fun _ => True := Stable.const
  have hblind : Blind fun _ => True := fun _ _ _ _ _ _ _ h => h
  unfold stIniting
  split
  · refine wp_quiet hs hblind trivial (fun w _ => hpre _ w trivial) trivial fun _ w _ => ?_
    refine wp_bind (wp_mono (fun _ w _ => ?_)
      (wp_quiet_prog hs hblind (fun o w _ ho => hpre o w ho) initRadio_quiet trivial))
    repeat refine wp_quiet hs hblind trivial (fun w _ => hpre _ w trivial) trivial fun _ w _ => ?_
    exact wp_tran hs trivial (fun _ _ => trivial) (left_stable p) (fun _ _ he => by cases he)
      fun _ h he => absurd he h
  · rename_i hf
    have hstarts : Starts w := (hb hst).resolve_left hf
    exact wp_return (by decide) (starts_stable p) hstarts fun _ h _ => h

theorem loopProof : LoopProof p ct Starts Idle Busy where
  boot_stable := starts_stable p
  idle_stable := idle_stable p
  busy_stable := busy_stable p
  boot_pre := fun _ _ => trivial
  idle_pre := fun _ h => h
  busy_pre := fun _ _ _ => ⟨trivial, trivial⟩
  noEnter := fun _ h => h.2
  fresh := fun w h => Or.inl h.starting
  boot := fun _ h _ => h
  wait := fun w h _ hst => by
    rcases h hst with hs | hf
    · exact Or.inr (Or.inl hs)
    · exact Or.inl hf
  attach := fun _ _ h => h
  handle := fun st f w _ hst hb => by
    by_cases hi : st = .initing
    · subst hi
      exact handle_initing hst hb
    · exact handle_left fun he => hi (hst.symm.trans he)

/-- Where the loop waits in Initing the init event is pending or to come. -/
theorem initing_starts {c : LayerConfig} (h : (layer p).Reach Started (fun _ _ => True) c)
    (hwait : c.prog.nextOp = some .flagsWaitAny) (hst : c.world.stHandler = .initing) :
    Starts c.world := by
  have hg : (layer p).Reach Started contract.guard c :=
    reach_guard (fun _ _ => trivial) (fun _ _ _ _ => trivial) h
  exact pre_of_wp (loopProof.reach_assuming hg) hwait hst

end Init

/-! What the thread does alone. -/

/-- In state `st` with `q` queued and `wr` written. -/
structure At (st : St) (q : List TxData) (wr : List FrmRef) (w : World) : Prop where
  stHandler : w.stHandler = st
  txQueue : w.txQueue = q
  written : w.written = wr

/-- Quiet, and it returns. -/
def Prompt (o : Call) : Prop := o.Quiet ∧ LayerSetting.Total o

/-- What prompt calls leave as it is. -/
structure Same (w w' : World) : Prop where
  stHandler : w'.stHandler = w.stHandler
  txQueue : w'.txQueue = w.txQueue
  written : w'.written = w.written
  flags : w'.flags = w.flags

theorem At.same {st : St} {q : List TxData} {wr : List FrmRef} {w w' : World}
    (h : At st q wr w) (hs : Same w w') : At st q wr w' :=
  ⟨hs.stHandler.trans h.stHandler, hs.txQueue.trans h.txQueue, hs.written.trans h.written⟩

section Alone
variable {p : Platform} {α : Type} {f : BitVec 32} {w : World} {q : List TxData}
  {wr : List FrmRef}

theorem prompt_exec {o : Call} (ho : Prompt o) (w : World) :
    ∃ ch r w', (layer p).exec o ch w = some (r, w') ∧ Same w w' := by
  obtain ⟨⟨r, w'⟩, hx⟩ := Option.isSome_iff_exists.mp
    (LayerSetting.total_exec p ho.2 .plain w)
  obtain ⟨tk, rd, id, fr, m, b, rfl⟩ := exec_quiet ho.1 hx
  exact ⟨.plain, r, _, hx, rfl, rfl, rfl, rfl⟩

theorem alone_prompt {g : LayerProg α} (hg : g.Calls Prompt) (w : World) :
    ∃ a w', Alone (layer p) g w a w' ∧ Same w w' :=
  alone_calls (fun _ => ⟨rfl, rfl, rfl, rfl⟩) (fun _ _ _ h h' => ⟨h'.stHandler.trans h.stHandler,
    h'.txQueue.trans h.txQueue, h'.written.trans h.written, h'.flags.trans h.flags⟩)
    (fun _ ho w => prompt_exec ho w) hg w

/-- What prompt calls do not change. -/
def Lasting (P : World → Prop) : Prop := ∀ w w', P w → Same w w' → P w'

theorem at_lasting (st : St) (q : List TxData) (wr : List FrmRef) : Lasting (At st q wr) :=
  fun _ _ h hs => h.same hs

theorem flags_lasting (g : BitVec 32) : Lasting fun w => w.flags = g :=
  fun _ _ h hs => hs.flags.trans h

theorem Lasting.and {P Q : World → Prop} (hP : Lasting P) (hQ : Lasting Q) :
    Lasting fun w => P w ∧ Q w := fun w w' h hs => ⟨hP w w' h.1 hs, hQ w w' h.2 hs⟩

/-- The program gets by itself to a world as `Q` tells, returning `a`. -/
def Gets (p : Platform) (g : LayerProg α) (w : World) (a : α) (Q : World → Prop) : Prop :=
  ∃ w', Alone (layer p) g w a w' ∧ Q w'

variable {P Q : World → Prop} {a : α}

theorem gets_pure (h : Q w) : Gets p (pure a) w a Q := ⟨w, .ret a w, h⟩

theorem gets_call {o : Call} {k : o.Res → LayerProg α} {c : Choice} {r : o.Res} {v : World}
    (hx : (layer p).exec o c w = some (r, v)) (h : Gets p (k r) v a Q) :
    Gets p (perform o >>= k) w a Q := by
  obtain ⟨w', halone, hQ⟩ := h
  exact ⟨w', .call hx halone, hQ⟩

theorem gets_prompt {β : Type} {g : LayerProg β} {k : β → LayerProg α} (hg : g.Calls Prompt)
    (hP : Lasting P) (hw : P w) (hk : ∀ b w, P w → Gets p (k b) w a Q) :
    Gets p (g >>= k) w a Q := by
  obtain ⟨b, w₁, halone, hsame⟩ := alone_prompt (p := p) hg w
  obtain ⟨w', hrest, hQ⟩ := hk b w₁ (hP w w₁ hw hsame)
  exact ⟨w', halone.bind hrest, hQ⟩

theorem gets_go {o : Call} {k : o.Res → LayerProg α} (ho : Prompt o) (hP : Lasting P) (hw : P w)
    (hk : ∀ r w, P w → Gets p (k r) w a Q) : Gets p (perform o >>= k) w a Q :=
  gets_prompt (g := perform o) ⟨ho, fun _ => trivial⟩ hP hw hk

theorem Gets.bind {β : Type} {g : LayerProg β} {k : β → LayerProg α} {b : β}
    (hg : Gets p g w b P) (hk : ∀ w, P w → Gets p (k b) w a Q) : Gets p (g >>= k) w a Q := by
  obtain ⟨w₁, halone, hP⟩ := hg
  obtain ⟨w', hrest, hQ⟩ := hk w₁ hP
  exact ⟨w', halone.bind hrest, hQ⟩

theorem gets_tran {st next : St} (h : At st q wr w) :
    Gets p (smTran next) w .tran (At next q wr) :=
  gets_call (c := .plain) rfl (gets_pure ⟨rfl, h.txQueue, h.written⟩)

/-! The handlers. -/

theorem setting_enter (hf : has f evtSmEnter = true) (hw : At .setting q wr w) :
    Gets p (stSetting f) w .handled (At .setting q wr) := by
  unfold stSetting
  rw [if_pos hf]
  refine gets_go ⟨trivial, trivial⟩ (at_lasting _ _ _) hw fun sleep w hw => ?_
  split
  · exact gets_go ⟨trivial, trivial⟩ (at_lasting _ _ _) hw fun _ w hw => gets_pure hw
  · exact gets_call (c := .plain) rfl (gets_pure ⟨hw.stHandler, hw.txQueue, hw.written⟩)

/-- Setting on the radio's ready signal. -/
theorem setting_ready (hent : has f evtSmEnter = false) (hf : has f evtDioModeRdy = true)
    (hw : At .setting q wr w) :
    Gets p (stSetting f) w .handled fun w' => At .setting q wr w' ∧
      w'.flags = w.flags ||| evtSmNext := by
  unfold stSetting
  rw [if_neg (by simp [hent]), if_pos hf]
  refine gets_go ⟨trivial, trivial⟩ ((at_lasting _ _ _).and (flags_lasting w.flags)) ⟨hw, rfl⟩
    fun _ w₁ hw₁ => ?_
  refine gets_call (c := .plain) rfl (gets_pure ⟨⟨hw₁.1.stHandler, hw₁.1.txQueue,
    hw₁.1.written⟩, ?_⟩)
  rw [← hw₁.2]
  rfl

/-- Setting goes on to Txing if a frame is queued and to Lstning if not. -/
theorem setting_next (hent : has f evtSmEnter = false) (hrdy : has f evtDioModeRdy = false)
    (hf : has f evtSmNext = true) (hw : At .setting q wr w) :
    Gets p (stSetting f) w .tran (At (if q = [] then .lstning else .txing) q wr) := by
  have hlast := at_lasting .setting q wr
  unfold stSetting
  rw [if_neg (by simp [hent]), if_neg (by simp [hrdy]), if_pos hf]
  refine gets_go ⟨trivial, trivial⟩ hlast hw fun _ w hw => ?_
  refine gets_call (o := .txQueueEmpty) (c := .plain) rfl ?_
  rw [hw.txQueue]
  cases q with
  | nil =>
    repeat refine gets_go ⟨trivial, trivial⟩ hlast hw fun _ w hw => ?_
    exact gets_tran hw
  | cons d rest =>
    repeat refine gets_go ⟨trivial, trivial⟩ hlast hw fun _ w hw => ?_
    exact gets_tran hw

theorem lstning_enter (hf : has f evtSmEnter = true) (hw : At .lstning q wr w) :
    Gets p (stLstning f) w .handled (At .lstning q wr) := by
  unfold stLstning
  rw [if_pos hf]
  repeat refine gets_go ⟨trivial, trivial⟩ (at_lasting _ _ _) hw fun _ w hw => ?_
  exact gets_pure hw

/-- The tick comes first, and the other events of the wait are gone. -/
theorem lstning_prdc (hent : has f evtSmEnter = false) (hf : has f evtThrdPrdc = true)
    (hw : At .lstning q wr w) :
    Gets p (stLstning f) w .handled fun w' => At .lstning q wr w' ∧ w'.flags = w.flags := by
  unfold stLstning
  rw [if_neg (by simp [hent]), if_pos hf]
  exact gets_go ⟨trivial, trivial⟩ ((at_lasting _ _ _).and (flags_lasting w.flags)) ⟨hw, rfl⟩
    fun _ w hw => gets_pure hw

theorem lstning_txRdy (hent : has f evtSmEnter = false) (hprdc : has f evtThrdPrdc = false)
    (hf : has f evtTxRdy = true) (hw : At .lstning q wr w) :
    Gets p (stLstning f) w .tran (At .setting q wr) := by
  unfold stLstning
  rw [if_neg (by simp [hent]), if_neg (by simp [hprdc]), if_pos hf]
  exact gets_go ⟨trivial, trivial⟩ (at_lasting _ _ _) hw fun _ w hw => gets_tran hw

theorem rxing_done (hent : has f evtSmEnter = false) (hf : has f evtDioRxDone = true)
    (hw : At .rxing q wr w) : Gets p (stRxing f) w .tran (At .setting q wr) := by
  unfold stRxing
  rw [if_neg (by simp [hent]), if_pos hf]
  exact gets_tran hw

/-- Txing writes the frame at the head of the queue. -/
theorem txing_enter {d : TxData} (hf : has f evtSmEnter = true) (hw : At .txing (d :: q) wr w) :
    Gets p (stTxing f) w .handled (At .txing q (wr ++ [d.frm])) := by
  unfold stTxing
  rw [if_pos hf]
  repeat refine gets_go ⟨trivial, trivial⟩ (at_lasting _ _ _) hw fun _ w hw => ?_
  have hhead : w.txQueue.head? = some d := by
    rw [hw.txQueue]
    rfl
  refine gets_call (o := .txQueueFront) (c := .plain) (r := d) (v := w) ?_ ?_
  · exact Option.map_eq_some_iff.mpr ⟨d, hhead, rfl⟩
  refine gets_call (o := .txQueuePopFront) (c := .plain) (r := ())
    (v := { w with txQueue := w.txQueue.tail, sending := some d.frm }) ?_ ?_
  · exact Option.map_eq_some_iff.mpr ⟨d, hhead, rfl⟩
  refine gets_call (o := .writeFifo d.frm) (c := .plain) rfl ?_
  refine gets_go ⟨trivial, trivial⟩ (at_lasting .txing q (wr ++ [d.frm])) ⟨hw.stHandler, ?_, ?_⟩
    fun _ w hw => gets_pure hw
  · exact (congrArg List.tail hw.txQueue)
  · exact congrArg (· ++ [d.frm]) hw.written

theorem txing_done (hent : has f evtSmEnter = false) (hf : has f evtDioTxDone = true)
    (hw : At .txing q wr w) : Gets p (stTxing f) w .tran (At .setting q wr) := by
  unfold stTxing
  rw [if_neg (by simp [hent]), if_pos hf]
  exact gets_tran hw

theorem initing_start (hf : has f evtThrdInit = true) (hw : At .initing q wr w) :
    Gets p (stIniting p f) w .tran (At .setting q wr) := by
  have hlast := at_lasting .initing q wr
  have hradio : initRadio.Calls Prompt := by
    repeat' first | trivial | refine calls_perform ⟨trivial, trivial⟩ fun _ => ?_
  unfold stIniting
  rw [if_pos hf]
  refine gets_go ⟨trivial, trivial⟩ hlast hw fun _ w hw => ?_
  refine gets_prompt hradio hlast hw fun _ w hw => ?_
  repeat refine gets_go ⟨trivial, trivial⟩ hlast hw fun _ w hw => ?_
  exact gets_tran hw

/-! Rounds of the loop. -/

theorem gets_round {l : Locals} {st : St} {r : SmRet} (hP : Lasting P)
    (hst : ∀ w, P w → w.stHandler = st) (hw : P w)
    (hk : ∀ w, P w → Gets p (handler p st (f ||| l.evtFlagEnter)) w r Q) :
    Gets p (round p l f) w (next r) Q := by
  have hinit : (onInit f).Calls Prompt := by
    unfold onInit
    split
    · split
      · exact ⟨⟨trivial, trivial⟩, fun _ => trivial⟩
      · trivial
    · trivial
  refine gets_prompt hinit hP hw fun _ w hw => ?_
  refine gets_call (o := .getStHandler) (c := .plain) rfl ?_
  rw [hst w hw]
  exact (hk w hw).bind fun _ hQ => gets_pure hQ

variable {ok : Event → Prop} {l : Locals} {st : St} {r : SmRet}

/-- The round in which a wait returns. -/
theorem leads_wait (hl : Waiting l) (hany : has w.flags evtAll = true) (hP : Lasting P)
    (hst : ∀ w, P w → w.stHandler = st) (hw : P { w with flags := w.flags &&& ~~~evtAll })
    (hk : ∀ v, P v → Gets p (handler p st w.flags) v r Q) :
    ∃ w', Leads (layer p) ok ⟨w, mainLoop p l⟩ ⟨w', mainLoop p (next r)⟩ ∧ Q w' := by
  have hor : w.flags ||| l.evtFlagEnter = w.flags := by
    rw [hl.2]
    exact BitVec.or_zero
  have hround : Gets p (mainLoop p l) w (next r) Q := by
    rw [mainLoop_eq, nextFlags, if_pos hl.1]
    refine gets_call (c := .plain) (if_pos hany) (gets_round hP hst hw ?_)
    rw [hor]
    exact hk
  obtain ⟨w', halone, hQ⟩ := hround
  exact ⟨w', (Leads.rest halone).trans (Leads.round .plain _ _), hQ⟩

/-- The round after a transition. -/
theorem leads_enter (hP : Lasting P) (hst : ∀ w, P w → w.stHandler = st) (hw : P w)
    (hk : ∀ v, P v → Gets p (handler p st evtSmEnter) v r Q) :
    ∃ w', Leads (layer p) ok ⟨w, mainLoop p (next .tran)⟩ ⟨w', mainLoop p (next r)⟩ ∧ Q w' := by
  have hround : Gets p (mainLoop p (next .tran)) w (next r) Q := gets_round hP hst hw hk
  obtain ⟨w', halone, hQ⟩ := hround
  exact ⟨w', (Leads.rest halone).trans (Leads.round .plain _ _), hQ⟩

/-- With actions of the environment that are `ok` the loop comes to wait as `Q` tells. -/
def Comes (p : Platform) (ok : Event → Prop) (c : LayerConfig) (Q : World → Prop) : Prop :=
  ∃ w' l', Leads (layer p) ok c ⟨w', mainLoop p l'⟩ ∧ Waiting l' ∧ Q w'

theorem Comes.after {c c' : LayerConfig} (h : Leads (layer p) ok c c') (hc : Comes p ok c' Q) :
    Comes p ok c Q := by
  obtain ⟨w', l', hleads, hl', hQ⟩ := hc
  exact ⟨w', l', h.trans hleads, hl', hQ⟩

theorem comes_setting (hw : At .setting q wr w) :
    Comes p ok ⟨w, mainLoop p (next .tran)⟩ (At .setting q wr) := by
  obtain ⟨w', hleads, hw'⟩ := leads_enter (p := p) (at_lasting _ _ _)
    (fun _ h => h.stHandler) hw fun v hv => setting_enter rfl hv
  exact ⟨w', _, hleads, next_waiting (by decide), hw'⟩

end Alone

/-! From wait to wait. -/

/-- What the environment is asked for: the thread's start, one frame queued for at once
and its wake-up, and the answers of the radio. -/
def Helps (n : Nat) : Event → Prop
  | .threadStarted | .postTxRdy | .dio .modeRdy | .dio .rxDone | .dio .txDone => True
  | .pushBack m txTime => m = n ∧ txTime = 0
  | _ => False

theorem has_all {f m : BitVec 32} (hm : evtAll ||| m = evtAll) (h : has f m = true) :
    has f evtAll = true := by
  rw [← hm, has_mask_or, h, Bool.or_true]

theorem has_cleared {m : BitVec 32} (hm : evtAll ||| m = evtAll) (f : BitVec 32) :
    has (f &&& ~~~evtAll) m = false := by
  have hall : has (f &&& ~~~evtAll) (evtAll ||| m) = false := hm.symm ▸ has_clear_same f evtAll
  rw [has_mask_or, Bool.or_eq_false_iff] at hall
  exact hall.2

theorem has_posted {m : BitVec 32} (hm : has m m = true) (f : BitVec 32) :
    has (f ||| m) m = true := by
  rw [has_or, hm, Bool.or_true]

section Comes
variable {p : Platform} {n : Nat} {w : World} {l : Locals} {q : List TxData}
  {wr : List FrmRef} {st : St}

/-- The loop waits in `w`, in a run. -/
structure Waits (p : Platform) (w : World) (l : Locals) : Prop where
  reached : (layer p).Reach Started (fun _ _ => True) ⟨w, mainLoop p l⟩
  waiting : Waiting l

theorem Waits.nextOp (h : Waits p w l) : (mainLoop p l).nextOp = some .flagsWaitAny :=
  h.waiting.nextOp

theorem Waits.noEnter (h : Waits p w l) : has w.flags evtSmEnter = false :=
  reach_noEnter p h.reached

theorem Waits.after {w' : World} {l' : Locals} (h : Waits p w l)
    (hleads : Leads (layer p) (Helps n) ⟨w, mainLoop p l⟩ ⟨w', mainLoop p l'⟩)
    (hl' : Waiting l') : Waits p w' l' := ⟨hleads.reach h.reached, hl'⟩

/-- An event while the loop waits. -/
theorem Waits.event {e : Event} {w' : World} (h : Waits p w l) (he : e.exec w = some w')
    (hok : Helps n e) :
    Leads (layer p) (Helps n) ⟨w, mainLoop p l⟩ ⟨w', mainLoop p l⟩ ∧ Waits p w' l := by
  have hleads : Leads (layer p) (Helps n) ⟨w, mainLoop p l⟩ ⟨w', mainLoop p l⟩ :=
    Leads.env hok he
  exact ⟨hleads, h.after hleads h.waiting⟩

theorem At.post {f : BitVec 32} (h : At st q wr w) : At st q wr (w.post f) :=
  ⟨h.stHandler, h.txQueue, h.written⟩

theorem At.clear (h : At st q wr w) : At st q wr { w with flags := w.flags &&& ~~~evtAll } :=
  ⟨h.stHandler, h.txQueue, h.written⟩

/-- A wait that leads to Setting. -/
theorem comes_by_tran {m : BitVec 32} (h : Waits p w l) (hw : At st q wr w)
    (hm : evtAll ||| m = evtAll) (hf : has w.flags m = true)
    (hk : ∀ v, At st q wr v → Gets p (handler p st w.flags) v .tran (At .setting q wr)) :
    Comes p (Helps n) ⟨w, mainLoop p l⟩ (At .setting q wr) := by
  obtain ⟨w₁, hleads, hw₁⟩ := leads_wait h.waiting (has_all hm hf) (at_lasting st q wr)
    (fun _ h => h.stHandler) hw.clear hk
  exact (comes_setting hw₁).after hleads

/-- Setting is reminded to go on, with the radio ready. -/
theorem comes_reminded (h : Waits p w l) (hw : At .setting q wr w) :
    Comes p (Helps n) ⟨w, mainLoop p l⟩ fun w' => At .setting q wr w' ∧
      has w'.flags evtSmNext = true ∧ has w'.flags evtDioModeRdy = false := by
  have hready : ∀ {w l}, Waits p w l → At .setting q wr w → has w.flags evtDioModeRdy = true →
      Comes p (Helps n) ⟨w, mainLoop p l⟩ fun w' => At .setting q wr w' ∧
        has w'.flags evtSmNext = true ∧ has w'.flags evtDioModeRdy = false := by
    intro w l h hw hf
    have hlast := (at_lasting .setting q wr).and (flags_lasting (w.flags &&& ~~~evtAll))
    obtain ⟨w₁, hleads, hw₁, hflags⟩ := leads_wait (p := p)
      (Q := fun w' => At .setting q wr w' ∧ w'.flags = (w.flags &&& ~~~evtAll) ||| evtSmNext)
      h.waiting (has_all rfl hf) hlast (fun _ h => h.1.stHandler) ⟨hw.clear, rfl⟩
      fun v hv => hv.2 ▸ setting_ready h.noEnter hf hv.1
    refine ⟨w₁, _, hleads, next_waiting (by decide), hw₁, ?_, ?_⟩
    · rw [hflags]
      exact has_posted rfl _
    · rw [hflags, has_or, has_cleared rfl]
      rfl
  have hg : (layer p).Reach Started LayerSetting.contract.guard ⟨w, mainLoop p l⟩ :=
    reach_guard (fun _ _ => trivial) (fun _ _ _ _ => trivial) h.reached
  have hpre := pre_of_wp ((LayerSetting.loopProof p).reach_assuming hg) h.nextOp
  by_cases hf : has w.flags evtDioModeRdy = true
  · exact hready h hw hf
  · rcases hpre.1 hw.stHandler with hnext | _
    · exact ⟨w, l, .refl, h.waiting, hw, hnext, by simpa using hf⟩
    · -- on its way to sleep: the radio's signal comes
      obtain ⟨hleads, h'⟩ := h.event (e := .dio .modeRdy) rfl (n := n) trivial
      exact (hready h' hw.post (has_posted rfl _)).after hleads

theorem Comes.bind {Q Q' : World → Prop} (h : Waits p w l)
    (hc : Comes p (Helps n) ⟨w, mainLoop p l⟩ Q)
    (hk : ∀ w' l', Waits p w' l' → Q w' → Comes p (Helps n) ⟨w', mainLoop p l'⟩ Q') :
    Comes p (Helps n) ⟨w, mainLoop p l⟩ Q' := by
  obtain ⟨w', l', hleads, hl', hQ⟩ := hc
  exact (hk w' l' (h.after hleads hl') hQ).after hleads

/-- From Setting the queue is sent, frame by frame, before the layer listens. -/
theorem comes_drained (h : Waits p w l) (hw : At .setting q wr w) :
    Comes p (Helps n) ⟨w, mainLoop p l⟩ (At .lstning [] (wr ++ q.map TxData.frm)) := by
  induction q generalizing w l wr with
  | nil =>
    refine (comes_reminded h hw).bind h fun w l h ⟨hw, hnext, hrdy⟩ => ?_
    obtain ⟨w₁, hleads, hw₁⟩ := leads_wait h.waiting (has_all rfl hnext)
      (at_lasting .setting [] wr) (fun _ h => h.stHandler) hw.clear
      fun v hv => setting_next h.noEnter hrdy hnext hv
    obtain ⟨w₂, hleads', hw₂⟩ := leads_enter (at_lasting .lstning [] wr)
      (fun _ h => h.stHandler) hw₁ fun v hv => lstning_enter rfl hv
    rw [List.map_nil, List.append_nil]
    exact ⟨w₂, _, hleads.trans hleads', next_waiting (by decide), hw₂⟩
  | cons d rest ih =>
    refine (comes_reminded h hw).bind h fun w l h ⟨hw, hnext, hrdy⟩ => ?_
    obtain ⟨w₁, hleads, hw₁⟩ := leads_wait h.waiting (has_all rfl hnext)
      (at_lasting .setting (d :: rest) wr) (fun _ h => h.stHandler) hw.clear
      fun v hv => setting_next h.noEnter hrdy hnext hv
    obtain ⟨w₂, hleads', hw₂⟩ := leads_enter (at_lasting .txing (d :: rest) wr)
      (fun _ h => h.stHandler) hw₁ fun v hv => txing_enter rfl hv
    -- in Txing the frame at the head is written; the radio answers
    have hsent : Comes p (Helps n) ⟨w, mainLoop p l⟩ (At .txing rest (wr ++ [d.frm])) :=
      ⟨w₂, _, hleads.trans hleads', next_waiting (by decide), hw₂⟩
    refine hsent.bind h fun w l h hw => ?_
    obtain ⟨hdone, h'⟩ := h.event (e := .dio .txDone) rfl (n := n) trivial
    have hback := comes_by_tran (n := n) h' hw.post rfl (has_posted rfl _)
      fun v hv => txing_done h'.noEnter (has_posted rfl _) hv
    refine Comes.after hdone (hback.bind h' fun w l h hw => ?_)
    have hrest := ih h hw
    rw [List.append_assoc, List.singleton_append] at hrest
    exact hrest

/-- Another thread queues a frame for at once and posts the wake-up. -/
theorem enqueued (h : Waits p w l) (hw : At st q wr w) :
    ∃ w', Leads (layer p) (Helps n) ⟨w, mainLoop p l⟩ ⟨w', mainLoop p l⟩ ∧ Waits p w' l ∧
      At st (q ++ [⟨.ext n, 0⟩]) wr w' ∧ w'.flags = w.flags ||| evtTxRdy := by
  let w₁ := { w.pushBack ⟨.ext n, 0⟩ with halfDone := w.halfDone + 1 }
  have hx₁ : (Event.pushBack n 0).exec w = some w₁ := rfl
  have hhalf : 0 < w₁.halfDone := Nat.succ_pos w.halfDone
  have hx₂ : Event.postTxRdy.exec w₁ = some { w₁.post evtTxRdy with halfDone := w.halfDone } := by
    rw [Event.exec, if_pos hhalf]
    rfl
  obtain ⟨hpush, h₁⟩ := h.event (n := n) hx₁ ⟨rfl, rfl⟩
  obtain ⟨hpost, h₂⟩ := h₁.event (n := n) hx₂ trivial
  refine ⟨_, hpush.trans hpost, h₂, ⟨hw.stHandler, ?_, hw.written⟩, rfl⟩
  exact congrArg (· ++ [⟨.ext n, 0⟩]) hw.txQueue

/-- With the frame queued the layer comes to Setting. -/
theorem comes_enqueued (h : Waits p w l) (hw : At st q wr w) :
    Comes p (Helps n) ⟨w, mainLoop p l⟩ (At .setting (q ++ [⟨.ext n, 0⟩]) wr) := by
  have hwoken : ∀ {w l}, Waits p w l → At .lstning q wr w → has w.flags evtThrdPrdc = false →
      Comes p (Helps n) ⟨w, mainLoop p l⟩ (At .setting (q ++ [⟨.ext n, 0⟩]) wr) := by
    intro w l h hw hprdc
    obtain ⟨w₁, hleads, h₁, hw₁, hflags⟩ := enqueued (n := n) h hw
    have hrdy : has w₁.flags evtTxRdy = true := hflags ▸ has_posted rfl _
    have hprdc₁ : has w₁.flags evtThrdPrdc = false := by
      rw [hflags, has_or, hprdc]
      rfl
    refine Comes.after hleads (comes_by_tran h₁ hw₁ rfl hrdy fun v hv => ?_)
    exact lstning_txRdy h₁.noEnter hprdc₁ hrdy hv
  obtain ⟨w₁, hleads, h₁, hw₁, hflags⟩ := enqueued (n := n) h hw
  cases st with
  | initing =>
    have hstarts : Starts w₁ := initing_starts h₁.reached h₁.nextOp hw₁.stHandler
    refine Comes.after hleads ?_
    rcases hstarts with hs | hf
    · obtain ⟨hstart, h₂⟩ := h₁.event (e := .threadStarted) (if_pos hs) (n := n) trivial
      have hw₂ : At .initing (q ++ [⟨.ext n, 0⟩]) wr
          { w₁.post evtThrdInit with starting := false } :=
        ⟨hw₁.stHandler, hw₁.txQueue, hw₁.written⟩
      refine Comes.after hstart (comes_by_tran h₂ hw₂ rfl (has_posted rfl _) fun v hv => ?_)
      exact initing_start (has_posted rfl _) hv
    · exact comes_by_tran h₁ hw₁ rfl hf fun v hv => initing_start hf hv
  | setting => exact ⟨w₁, l, hleads, h₁.waiting, hw₁⟩
  | lstning =>
    by_cases hprdc : has w.flags evtThrdPrdc = true
    · -- the tick of this wait would take the wake-up along: it goes first
      have hlast := (at_lasting .lstning q wr).and (flags_lasting (w.flags &&& ~~~evtAll))
      obtain ⟨w₂, hfirst, hw₂, hflags₂⟩ := leads_wait (p := p)
        (Q := fun w' => At .lstning q wr w' ∧ w'.flags = w.flags &&& ~~~evtAll)
        h.waiting (has_all rfl hprdc) hlast (fun _ h => h.1.stHandler) ⟨hw.clear, rfl⟩
        fun v hv => hv.2 ▸ lstning_prdc h.noEnter hprdc hv.1
      have h₂ := h.after (n := n) hfirst (next_waiting (by decide))
      refine Comes.after hfirst (hwoken h₂ hw₂ ?_)
      rw [hflags₂]
      exact has_cleared rfl _
    · exact hwoken h hw (by simpa using hprdc)
  | rxing =>
    obtain ⟨hdone, h₂⟩ := h₁.event (e := .dio .rxDone) rfl (n := n) trivial
    refine Comes.after (hleads.trans hdone) (comes_by_tran h₂ hw₁.post rfl (has_posted rfl _)
      fun v hv => ?_)
    exact rxing_done h₂.noEnter (has_posted rfl _) hv
  | txing =>
    obtain ⟨hdone, h₂⟩ := h₁.event (e := .dio .txDone) rfl (n := n) trivial
    refine Comes.after (hleads.trans hdone) (comes_by_tran h₂ hw₁.post rfl (has_posted rfl _)
      fun v hv => ?_)
    exact txing_done h₂.noEnter (has_posted rfl _) hv

end Comes

instance : Inhabited Choice := ⟨.plain⟩

/-- The call does not return, whatever it finds. -/
def Blocked (o : Call) (w : World) : Prop :=
  match o with
  | .flagsWaitAny => has w.flags evtAll = false
  | .txQueueFront | .txQueuePopFront => w.txQueue = []
  | .newFrame => FramePool.poolCnt ≤ w.live.length + w.others
  | .strlen s => ∀ k, s k ≠ 0
  | _ => False

theorem exec_none_iff (p : Platform) (o : Call) (w : World) :
    (∀ ch, Call.exec p o ch w = none) ↔ Blocked o w := by
  cases o with
  | flagsWaitAny => simp [Call.exec, Blocked]
  | txQueueFront => simp [Call.exec, Blocked]
  | txQueuePopFront => simp [Call.exec, Blocked]
  | newFrame =>
    refine ⟨fun h => ?_, fun h ch => if_neg (Nat.not_lt.mpr h)⟩
    by_contra hlt
    have hnone := h .plain
    rw [Call.exec, if_pos (Nat.not_le.mp hlt)] at hnone
    cases hnone
  | strlen s =>
    constructor
    · intro h k
      induction k using Nat.strong_induction_on with
      | _ k ih =>
        intro hk
        have hnone := h ⟨fun _ => 0, .notMounted, k⟩
        rw [Call.exec, if_pos ⟨hk, ih⟩] at hnone
        cases hnone
    · exact fun h ch => if_neg fun hch => h _ hch.1
  | radio c =>
    have hsome := LayerSetting.total_exec p (o := .radio c) trivial .plain w
    refine ⟨fun h => ?_, fun h => h.elim⟩
    rw [h] at hsome
    cases hsome
  | txQueuePushBack d =>
    have hsome := LayerSetting.total_exec p (o := .txQueuePushBack d) trivial .plain w
    refine ⟨fun h => ?_, fun h => h.elim⟩
    rw [h] at hsome
    cases hsome
  | _ => exact ⟨fun h => absurd (h .plain) (by simp [Call.exec]), fun h => h.elim⟩

end LayerProgress
