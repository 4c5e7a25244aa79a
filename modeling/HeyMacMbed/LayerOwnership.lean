import HeyMacMbed.LayerLoop

/-!
# Ownership of the frames

The layer makes frames and queues them; nothing destroys one. As long as Txing is
not left after a frame of the layer, the layer's frames in existence are those queued
and the one being sent. Each such departure loses a frame and its buffer for good.
-/

open Bits Threads HeyMacLayer

namespace LayerOwnership

def ownRef (d : TxData) : Option Nat :=
  match d.frm with
  | .own n => some n
  | .ext _ => none

/-- The frame of the layer that was popped last. -/
def ownOf : Option FrmRef → List Nat
  | some (.own n) => [n]
  | _ => []

/-- All that counts for the ownership of the layer's frames. -/
@[ext] structure Ledger where
  st : St
  live : List Nat
  making : List Nat
  queue : List Nat
  sent : List Nat

def ledger (w : World) : Ledger where
  st := w.stHandler
  live := w.live
  making := w.making
  queue := w.txQueue.filterMap ownRef
  sent := ownOf w.sending

/-- The wait lets Txing go after a frame of the layer. -/
def Abandons (w : World) : Prop :=
  w.stHandler = .txing ∧ has w.flags evtDioTxDone = true ∧ ownOf w.sending ≠ []

/-- Outside Txing the frames in existence are the queued ones and the one being made, in
Txing at most one more. -/
structure Owned (l : Ledger) : Prop where
  outside : l.st ≠ .txing → l.live = l.queue ++ l.making
  txing : l.st = .txing → l.making = [] ∧ ∃ extra, extra.length ≤ 1 ∧ l.live = extra ++ l.queue

/-- While the loop waits none is in the making; when a frame is made all are queued. -/
def NoneMaking (o : Call) (l : Ledger) : Prop :=
  match o with
  | .flagsWaitAny => l.making = []
  | .newFrame => l.making = [] ∧ l.live = l.queue
  | _ => True

def contract : Contract Call World Event where
  envOk := fun _ _ => True
  opOk := fun o w => match o with
    | .flagsWaitAny => ¬ Abandons w
    | _ => True
  pre := fun o w => Owned (ledger w) ∧ NoneMaking o (ledger w)

def ct : Contract Call World Event := contract.assuming NoEnter

structure IdleL (l : Ledger) : Prop where
  making : l.making = []
  txing : l.st = .txing → l.live = l.sent ++ l.queue
  outside : l.st ≠ .txing → l.live = l.queue

/-- With the events `f` Txing stays, or has nothing of the layer's to lose. -/
structure BusyL (f : BitVec 32) (l : Ledger) : Prop where
  making : l.making = []
  outside : l.st ≠ .txing → l.live = l.queue
  entry : l.st = .txing → has f evtSmEnter = true → l.live = l.queue
  sending : l.st = .txing → has f evtSmEnter = false → l.live = l.sent ++ l.queue
  done : l.st = .txing → has f evtSmEnter = false → has f evtDioTxDone = true → l.sent = []

def Idle (w : World) : Prop := IdleL (ledger w)

def Busy (f : BitVec 32) (w : World) : Prop := BusyL f (ledger w)

theorem ownOf_length (s : Option FrmRef) : (ownOf s).length ≤ 1 := by
  unfold ownOf
  split <;> simp

theorem IdleL.owned {w : World} (h : IdleL (ledger w)) : Owned (ledger w) where
  outside := fun hst => by rw [h.outside hst, h.making, List.append_nil]
  txing := fun hst => ⟨h.making, _, ownOf_length w.sending, h.txing hst⟩

theorem BusyL.owned {f : BitVec 32} {w : World} (h : BusyL f (ledger w)) : Owned (ledger w) where
  outside := fun hst => by rw [h.outside hst, h.making, List.append_nil]
  txing := fun hst => by
    refine ⟨h.making, ?_⟩
    cases he : has f evtSmEnter with
    | true => exact ⟨[], Nat.zero_le _, h.entry hst he⟩
    | false => exact ⟨_, ownOf_length w.sending, h.sending hst he⟩

theorem BusyL.idle {f : BitVec 32} {l : Ledger} (h : BusyL f l) (hne : l.st ≠ .txing) :
    IdleL l where
  making := h.making
  txing := fun hst => absurd hst hne
  outside := h.outside

/-- Neither the environment nor a quiet call changes the ledger. -/
theorem ledger_around {w w' : World} (ha : Around w w') : ledger w' = ledger w := by
  obtain ⟨more, hq, _, hext⟩ := ha.queue
  have hnone : more.filterMap ownRef = [] := by
    rw [List.filterMap_eq_nil_iff]
    intro d hd
    obtain ⟨n, hn⟩ := hext d hd
    rw [ownRef, hn]
  simp only [ledger, ha.stHandler, ha.live, ha.making, ha.sending, hq, List.filterMap_append,
    hnone, List.append_nil]

def At (l : Ledger) (w : World) : Prop := ledger w = l

variable (p : Platform)

theorem ledger_stable (R : Ledger → Prop) : Stable (layer p) ct fun w => R (ledger w) :=
  stable_of_around fun w w' ha h => by
    rw [ledger_around ha]
    exact h

theorem at_stable (l : Ledger) : Stable (layer p) ct (At l) := ledger_stable p (· = l)

theorem at_blind (l : Ledger) : Blind (At l) := fun _ _ _ _ _ _ _ h => h

section Handlers
variable {p} {f : BitVec 32} {w : World} {l : Ledger} {α : Type} {Q : α → World → Prop}

theorem noneMaking_quiet {o : Call} (ho : o.Quiet) (l : Ledger) : NoneMaking o l := by
  cases o <;> trivial

theorem pre_at {o : Call} {w : World} (hw : At l w) (hl : Owned l) (ho : NoneMaking o l) :
    ct.pre o w := by
  have hw : ledger w = l := hw
  have hpre : Owned (ledger w) ∧ NoneMaking o (ledger w) := by
    rw [hw]
    exact ⟨hl, ho⟩
  exact hpre

/-- A quiet call. -/
theorem wp_go {o : Call} {k : o.Res → LayerProg α} (ho : o.Quiet) (hl : Owned l) (hw : At l w)
    (h : ∀ r w, At l w → wp (layer p) ct (k r) Q w) : wp (layer p) ct (perform o >>= k) Q w :=
  wp_quiet (at_stable p l) (at_blind l) ho (fun _ hw => pre_at hw hl (noneMaking_quiet ho l))
    hw h

theorem wp_stay {r : SmRet} (hr : r ≠ .tran) (hl : IdleL l) (hw : At l w) :
    wp (layer p) ct (pure r) (Returned Idle Busy) w := by
  refine wp_return hr (at_stable p l) hw fun w hw => ?_
  have hw : ledger w = l := hw
  rw [Idle, hw]
  exact hl

theorem busyL_enter (hm : l.making = []) (hq : l.live = l.queue) : BusyL evtSmEnter l where
  making := hm
  outside := fun _ => hq
  entry := fun _ _ => hq
  sending := fun _ hn => by cases hn
  done := fun _ hn => by cases hn

theorem wp_smTran {st : St} (hl : Owned l) (hm : l.making = []) (hq : l.live = l.queue)
    (hw : At l w) : wp (layer p) ct (smTran st) (Returned Idle Busy) w := by
  refine wp_tran (R := At { l with st := st }) (at_stable p l) hw
    (fun _ hw => pre_at hw hl trivial) (at_stable p _) (fun w hw => ?_) fun w hw => ?_
  · have hw : ledger w = l := hw
    rw [At, ← hw]
    rfl
  · have hw : ledger w = { l with st := st } := hw
    rw [Busy, hw]
    exact busyL_enter hm hq

theorem wp_flagsSet {g : BitVec 32} {k : Unit → LayerProg α} (hl : Owned l) (hw : At l w)
    (h : ∀ w, At l w → wp (layer p) ct (k ()) Q w) :
    wp (layer p) ct (perform (.flagsSet g) >>= k) Q w := by
  refine wp_perform (at_stable p l) hw (fun _ hw => pre_at hw hl trivial)
    fun w c r w' hw _ hx => ?_
  cases hx
  exact h _ hw

theorem handle_initing (hb : BusyL f l) (hne : l.st ≠ .txing) (ho : Owned l) (hw : At l w) :
    wp (layer p) ct (stIniting p f) (Returned Idle Busy) w := by
  have hidle := hb.idle hne
  exact wp_stIniting (at_stable p l) (at_blind l)
    (fun o _ h hq => pre_at h ho (noneMaking_quiet hq l)) hw
    (fun _ hw => wp_smTran ho hb.making (hb.outside hne) hw)
    fun _ hw => wp_stay (by decide) hidle hw

theorem handle_setting (hb : BusyL f l) (hne : l.st ≠ .txing) (ho : Owned l) (hw : At l w) :
    wp (layer p) ct (stSetting f) (Returned Idle Busy) w := by
  have hidle := hb.idle hne
  unfold stSetting
  split
  · refine wp_go trivial ho hw fun sleep w hw => ?_
    split
    · refine wp_go trivial ho hw fun _ w hw => ?_
      exact wp_stay (by decide) hidle hw
    · exact wp_flagsSet ho hw fun w hw => wp_stay (by decide) hidle hw
  split
  · refine wp_go trivial ho hw fun _ w hw => ?_
    exact wp_flagsSet ho hw fun w hw => wp_stay (by decide) hidle hw
  split
  · refine wp_go trivial ho hw fun _ w hw => ?_
    refine wp_go trivial ho hw fun empty w hw => ?_
    split
    · repeat refine wp_go trivial ho hw fun _ w hw => ?_
      exact wp_smTran ho hb.making (hb.outside hne) hw
    · repeat refine wp_go trivial ho hw fun _ w hw => ?_
      exact wp_smTran ho hb.making (hb.outside hne) hw
  · exact wp_stay (by decide) hidle hw

/-- A frame is made: from now on it is in existence and not queued yet. -/
theorem wp_newFrame {k : FrmRef → LayerProg α} (ho : Owned l) (hm : l.making = [])
    (hq : l.live = l.queue) (hw : At l w)
    (h : ∀ n w, At { l with live := l.live ++ [n], making := [n] } w →
      wp (layer p) ct (k (.own n)) Q w) :
    wp (layer p) ct (perform .newFrame >>= k) Q w := by
  refine wp_perform (at_stable p l) hw (fun _ hw => pre_at hw ho ⟨hm, hq⟩) fun w c frm w' hw _ hx => ?_
  obtain ⟨_, hx⟩ := Option.ite_none_right_eq_some.mp hx
  cases hx
  refine h _ _ ?_
  have hw : ledger w = l := hw
  have hmw : w.making = [] := (congrArg Ledger.making hw).trans hm
  rw [At, ← hw]
  simp only [ledger, hmw, List.nil_append]

/-- Queueing the frame in the making. -/
theorem wp_enqTxFrame {n : Nat} {txTime : BitVec 32} (ho : Owned l) (hm : l.making = [n])
    (ho' : Owned { l with making := [], queue := l.queue ++ [n] }) (hw : At l w) :
    wp (layer p) ct (enqTxFrame (.own n) txTime)
      (fun _ w => At { l with making := [], queue := l.queue ++ [n] } w) w := by
  unfold enqTxFrame
  refine wp_perform (at_stable p l) hw (fun _ hw => pre_at hw ho trivial)
    fun w c r w' hw _ hx => ?_
  cases hx
  have hw : ledger w = l := hw
  have hmw : w.making = [n] := (congrArg Ledger.making hw).trans hm
  have hpush : At { l with making := [], queue := l.queue ++ [n] }
      { w.pushBack ⟨.own n, txTime⟩ with making := w.making.erase n } := by
    have herase : w.making.erase n = [] := by simp [hmw]
    have hown : ([⟨.own n, txTime⟩] : List TxData).filterMap ownRef = [n] := rfl
    rw [At, ← hw]
    simp only [ledger, herase, World.pushBack, List.filterMap_append, hown]
  have hs := at_stable p { l with making := [], queue := l.queue ++ [n] }
  split
  · refine wp_last hs hpush (fun _ hw => pre_at hw ho' trivial) fun w c r w' hw _ hx => ?_
    cases hx
    exact wp_pure hs hw fun _ hw => hw
  · exact wp_pure hs hpush fun _ hw => hw

theorem owned_making {n : Nat} (hst : l.st ≠ .txing) (hq : l.live = l.queue) :
    Owned { l with live := l.live ++ [n], making := [n] } :=
  ⟨fun _ => by rw [hq], fun h => absurd h hst⟩

theorem owned_queued {n : Nat} (hst : l.st ≠ .txing) (hq : l.live = l.queue) :
    Owned { l with live := l.live ++ [n], making := [], queue := l.queue ++ [n] } :=
  ⟨fun _ => by rw [hq, List.append_nil], fun h => absurd h hst⟩

theorem idleL_queued {n : Nat} (hst : l.st ≠ .txing) (hq : l.live = l.queue) :
    IdleL { l with live := l.live ++ [n], making := [], queue := l.queue ++ [n] } :=
  ⟨rfl, fun h => absurd h hst, fun _ => by rw [hq]⟩

/-- A frame made, filled and queued leaves the account balanced. -/
theorem wp_onBtn (hst : l.st ≠ .txing) (hm : l.making = []) (hq : l.live = l.queue)
    (ho : Owned l) (hw : At l w) :
    wp (layer p) ct onBtn (Returned Idle Busy) w := by
  unfold onBtn
  repeat refine wp_go trivial ho hw fun _ w hw => ?_
  refine wp_newFrame ho hm hq hw fun n w hw => ?_
  have ho' := owned_making (n := n) hst hq
  repeat refine wp_go trivial ho' hw fun _ w hw => ?_
  refine wp_bind (wp_mono (fun _ w hw => ?_) (wp_enqTxFrame ho' rfl (owned_queued hst hq) hw))
  exact wp_stay (by decide) (idleL_queued hst hq) hw

/-- So does the beacon. -/
theorem wp_txBcn (hst : l.st ≠ .txing) (hm : l.making = []) (hq : l.live = l.queue)
    (ho : Owned l) (hw : At l w) :
    wp (layer p) ct txBcn (fun _ w => Idle w) w := by
  unfold txBcn
  refine wp_newFrame ho hm hq hw fun n w hw => ?_
  have ho' := owned_making (n := n) hst hq
  repeat refine wp_go trivial ho' hw fun _ w hw => ?_
  refine wp_mono (fun _ w hw => ?_) (wp_enqTxFrame ho' rfl (owned_queued hst hq) hw)
  have hw : ledger w = { l with live := l.live ++ [n], making := [], queue := l.queue ++ [n] } :=
    hw
  rw [Idle, hw]
  exact idleL_queued hst hq

theorem handle_lstning (hb : BusyL f l) (hne : l.st ≠ .txing) (ho : Owned l) (hw : At l w) :
    wp (layer p) ct (stLstning f) (Returned Idle Busy) w := by
  have hidle := hb.idle hne
  have hq := hb.outside hne
  unfold stLstning
  split
  · repeat refine wp_go trivial ho hw fun _ w hw => ?_
    exact wp_stay (by decide) hidle hw
  split
  · refine wp_go trivial ho hw fun _ w hw => ?_
    exact wp_stay (by decide) hidle hw
  split
  · refine wp_go trivial ho hw fun _ w hw => ?_
    exact wp_smTran ho hb.making hq hw
  split
  · exact wp_onBtn hne hb.making hq ho hw
  split
  · exact wp_smTran ho hb.making hq hw
  · exact wp_stay (by decide) hidle hw

theorem handle_rxing (hb : BusyL f l) (hne : l.st ≠ .txing) (ho : Owned l) (hw : At l w) :
    wp (layer p) ct (stRxing f) (Returned Idle Busy) w := by
  have hidle := hb.idle hne
  unfold stRxing
  split
  · exact wp_stay (by decide) hidle hw
  split
  · exact wp_smTran ho hb.making (hb.outside hne) hw
  · exact wp_stay (by decide) hidle hw

/-- The ledger when the frame at the front of the queue is known. -/
def Front (l : Ledger) (d : TxData) (w : World) : Prop := At l w ∧ w.txQueue.head? = some d

theorem front_stable (d : TxData) : Stable (layer p) ct (Front l d) := by
  refine (at_stable p l).and (stable_of_around fun w w' ha h => ?_)
  obtain ⟨more, hq, _, _⟩ := ha.queue
  rw [hq, List.head?_append, h]
  rfl

/-- Popping moves the front frame from the queue to the sender. -/
theorem pop_ledger {d : TxData} (h : Front l d w) :
    ∃ queue, l.queue = ownOf (some d.frm) ++ queue ∧
      At { l with queue := queue, sent := ownOf (some d.frm) }
        { w with txQueue := w.txQueue.tail, sending := some d.frm } := by
  obtain ⟨hw, hd⟩ := h
  have hw : ledger w = l := hw
  refine ⟨w.txQueue.tail.filterMap ownRef, ?_, ?_⟩
  · obtain ⟨rest, hrest⟩ := List.head?_eq_some_iff.mp hd
    obtain ⟨frm, t⟩ := d
    rw [← hw]
    simp only [ledger, hrest, List.tail_cons]
    cases frm <;> rfl
  · rw [At, ← hw]
    rfl

theorem handle_txing (hb : BusyL f l) (hst : l.st = .txing) (ho : Owned l) (hw : At l w) :
    wp (layer p) ct (stTxing f) (Returned Idle Busy) w := by
  unfold stTxing
  split
  · rename_i hent
    have hq := hb.entry hst hent
    repeat refine wp_go trivial ho hw fun _ w hw => ?_
    refine wp_perform (at_stable p l) hw (fun _ hw => pre_at hw ho trivial)
      fun w c d w' hw _ hx => ?_
    obtain ⟨d', hd, hx⟩ := Option.map_eq_some_iff.mp hx
    cases hx
    have hfront : Front l d w := ⟨hw, hd⟩
    refine wp_perform (front_stable d) hfront (fun _ hw => pre_at hw.1 ho trivial)
      fun w c r w' hw _ hx => ?_
    obtain ⟨d', hd', hx⟩ := Option.map_eq_some_iff.mp hx
    have hdd : d' = d := Option.some.inj (hd'.symm.trans hw.2)
    cases hx
    subst hdd
    obtain ⟨queue, hsplit, hpop⟩ := pop_ledger hw
    have hlive : l.live = ownOf (some d'.frm) ++ queue := hq.trans hsplit
    have hidle : IdleL { l with queue := queue, sent := ownOf (some d'.frm) } :=
      ⟨hb.making, fun _ => hlive, fun h => absurd hst h⟩
    have ho' : Owned { l with queue := queue, sent := ownOf (some d'.frm) } :=
      ⟨fun h => absurd hst h, fun _ => ⟨hb.making, _, ownOf_length _, hlive⟩⟩
    refine wp_perform (at_stable p _) hpop (fun _ hw => pre_at hw ho' trivial)
      fun w c r w' hw _ hx => ?_
    cases hx
    refine wp_go trivial ho' hw fun _ w hw => ?_
    exact wp_stay (by decide) hidle hw
  split
  · rename_i hent hdone
    have hent : has f evtSmEnter = false := by simpa using hent
    have hq := hb.sending hst hent
    rw [hb.done hst hent hdone, List.nil_append] at hq
    exact wp_smTran ho hb.making hq hw
  · rename_i hent hdone
    have hent : has f evtSmEnter = false := by simpa using hent
    have hidle : IdleL l := ⟨hb.making, fun _ => hb.sending hst hent, fun h => absurd hst h⟩
    exact wp_stay (by decide) hidle hw

end Handlers

theorem idle_stable : Stable (layer p) ct Idle := ledger_stable p IdleL

theorem busy_stable (f : BitVec 32) : Stable (layer p) ct (Busy f) := ledger_stable p (BusyL f)

/-- Waiting gives Txing its completion only after a frame of another thread. -/
theorem wait_busy {w : World} (h : Idle w) (hok : ct.opOk .flagsWaitAny w) :
    Busy w.flags { w with flags := w.flags &&& ~~~evtAll } := by
  obtain ⟨hkeep, hne⟩ := hok
  have hne : has w.flags evtSmEnter = false := hne
  refine ⟨h.making, h.outside, fun _ he => ?_, fun hst _ => h.txing hst, fun hst _ hd => ?_⟩
  · rw [hne] at he
    cases he
  · by_contra hsent
    exact hkeep ⟨hst, hd, hsent⟩

theorem not_txing {w : World} {st : St} (hst : w.stHandler = st) (h : st ≠ .txing) :
    (ledger w).st ≠ .txing := fun hl => h (hst.symm.trans hl)

/-- Before the loop nothing has been made. -/
def Nothing (l : Ledger) : Prop := l.live = [] ∧ l.making = [] ∧ l.queue = []

theorem owned_nothing {l : Ledger} (h : Nothing l) : Owned l := by
  obtain ⟨hlive, hm, hq⟩ := h
  constructor
  · intro _
    rw [hlive, hm, hq]
    rfl
  · intro _
    exact ⟨hm, [], Nat.zero_le _, by rw [hlive, hq]; rfl⟩

theorem loopProof : LoopProof p ct (fun w => Nothing (ledger w)) Idle Busy where
  boot_stable := ledger_stable p Nothing
  idle_stable := idle_stable p
  busy_stable := busy_stable p
  boot_pre := fun _ h => ⟨owned_nothing h, trivial⟩
  idle_pre := fun _ h => ⟨IdleL.owned h, IdleL.making h⟩
  busy_pre := fun _ _ h => ⟨⟨BusyL.owned h, trivial⟩, ⟨BusyL.owned h, trivial⟩⟩
  noEnter := fun _ h => h.2
  fresh := fun w h => by simp [Nothing, ledger, h.live, h.making, h.txQueue]
  boot := fun w h => by
    refine ⟨h.2.1, fun hst => ?_, fun _ => h.1.trans h.2.2.symm⟩
    cases hst
  wait := fun _ h hok => wait_busy h hok
  attach := fun _ _ h => h
  handle := fun st f w _ hst hb => by
    have ho := BusyL.owned hb
    cases st with
    | initing => exact handle_initing hb (not_txing hst (by decide)) ho rfl
    | setting => exact handle_setting hb (not_txing hst (by decide)) ho rfl
    | lstning => exact handle_lstning hb (not_txing hst (by decide)) ho rfl
    | rxing => exact handle_rxing hb (not_txing hst (by decide)) ho rfl
    | txing => exact handle_txing hb hst ho rfl

/-- The layer's frames in the queue. -/
def ownQueued (w : World) : List Nat := w.txQueue.filterMap ownRef

/-- How many frames of other threads are in the queue. -/
def othersQueued (w : World) : Nat := w.txQueue.countP fun d => (ownRef d).isNone

theorem queued_length (w : World) : (ownQueued w).length + othersQueued w = w.txQueue.length := by
  rw [ownQueued, othersQueued]
  induction w.txQueue with
  | nil => rfl
  | cons d rest ih =>
    rw [List.filterMap_cons, List.countP_cons, List.length_cons]
    cases ownRef d with
    | none =>
      simp only [Option.isNone_none, if_true]
      omega
    | some n =>
      simp only [Option.isNone_some, Bool.false_eq_true, if_false, List.length_cons]
      omega

/-- The layer's frames in existence are those queued, and the one being made; in Txing at
most one more. The constructor gets a buffer just if the layer's queued frames and the
frames of other threads leave a block of the pool; so it does if other threads hold
blocks for frames in the queue only and the queue is shorter than the pool. -/
structure Accounted (c : LayerConfig) : Prop where
  outside : c.world.stHandler ≠ .txing → c.world.live = ownQueued c.world ++ c.world.making
  txing : c.world.stHandler = .txing → c.world.making = [] ∧
    ∃ extra, extra.length ≤ 1 ∧ c.world.live = extra ++ ownQueued c.world
  waiting : c.prog.nextOp = some .flagsWaitAny → c.world.making = []
  making : c.prog.nextOp = some .newFrame → c.world.making = []
  newFrame : c.prog.nextOp = some .newFrame → ∀ ch, (layer p).step c (.act ch) ≠ none ↔
    (ownQueued c.world).length + c.world.others < FramePool.poolCnt
  room : c.prog.nextOp = some .newFrame → c.world.others ≤ othersQueued c.world →
    c.world.txQueue.length < FramePool.poolCnt → ∀ ch, (layer p).step c (.act ch) ≠ none

theorem accounted_of_wp {c : LayerConfig}
    (h : wp (layer p) ct c.prog (LoopInv Idle Busy) c.world) : Accounted p c := by
  obtain ⟨w, q⟩ := c
  cases q with
  | ret l =>
    obtain ⟨_, _, hret⟩ := wp_post h
    have ho : Owned (ledger w) := by
      unfold Returned at hret
      split at hret
      · exact BusyL.owned hret
      · exact IdleL.owned hret
    exact ⟨ho.outside, ho.txing, nofun, nofun, nofun, nofun⟩
  | call o k =>
    obtain ⟨ho, hnone⟩ : ct.pre o w := wp_pre h
    have hnew : (Prog.call o k).nextOp = some .newFrame → ∀ ch,
        (layer p).step ⟨w, .call o k⟩ (.act ch) ≠ none ↔
          (ownQueued w).length + w.others < FramePool.poolCnt := by
      intro hn ch
      cases hn
      have hq : w.live = ownQueued w := hnone.2
      rw [← hq]
      simp [System.step, layer, Call.exec]
    refine ⟨ho.outside, ho.txing, fun hn => ?_, fun hn => ?_, hnew, fun hn hothers hlt ch => ?_⟩
    · cases hn
      exact hnone
    · cases hn
      exact hnone.1
    · have hqueue := queued_length w
      have hothers : w.others ≤ othersQueued w := hothers
      have hlt : w.txQueue.length < FramePool.poolCnt := hlt
      exact (hnew hn ch).mpr (by omega)

/-- In every run in which Txing is not left after a frame of the layer, the account of the
layer's frames is right. -/
theorem frames_accounted {c : LayerConfig} (h : (layer p).Reach Started contract.guard c) :
    Accounted p c := by
  have hwp := (loopProof p).reach_assuming h
  exact accounted_of_wp p hwp

/-! Runs on fixed inputs. -/

instance (w : World) : Decidable (Abandons w) := inferInstanceAs (Decidable (_ ∧ _))

theorem testStep_guard (c : LayerConfig) (l : Label Event Choice)
    (h : testStep (fun _ => true) (fun w => decide (Abandons w)) c l = true) :
    contract.guard c l := by
  cases l with
  | env e => trivial
  | act ch =>
    intro o ho
    cases o with
    | flagsWaitAny => exact of_decide_eq_false (testStep_wait h ho)
    | _ => trivial

/-- Another thread makes a frame and the button is pressed while the loop waits in Lstning:
the layer's frame is sent, and the loop waits in Txing with both in existence. -/
theorem frames_accounted_btn : ∃ c : LayerConfig,
    (layer .plain).Reach Started contract.guard c ∧ c.world.live = [1] ∧ c.world.others = 1 ∧
      Accounted .plain c := by
  obtain ⟨c, hc, hP⟩ := reach_plain testStep_guard
    (toLstning ++ [.env .newFrame, .env .btn] ++ acts 39)
    (fun c => waitsIn c .txing && decide (c.world.live = [1] ∧ c.world.others = 1))
    (by decide +kernel)
  obtain ⟨_, hd⟩ := Bool.and_eq_true_iff.mp hP
  obtain ⟨hlive, hothers⟩ := of_decide_eq_true hd
  exact ⟨c, hc, hlive, hothers, frames_accounted .plain hc⟩

/-- The same frame is sent and the layer waits in Lstning again: the frame is neither
queued nor destroyed. -/
theorem sent_frame_lives : ∃ c : LayerConfig,
    (layer .plain).Reach Started (fun _ _ => True) c ∧
      c.prog.nextOp = some .flagsWaitAny ∧ c.world.stHandler = .lstning ∧
      c.world.txQueue = [] ∧ c.world.live = [1] ∧ ¬ Accounted .plain c := by
  obtain ⟨c, hc, hP⟩ := reach_plain anyStep_guard
    (toLstning ++ [.env .btn] ++ acts 39 ++ [.env (.dio .txDone)] ++ acts 24)
    (fun c => waitsIn c .lstning && decide (c.world.txQueue = [] ∧ c.world.live = [1]))
    (by decide +kernel)
  obtain ⟨hw, hd⟩ := Bool.and_eq_true_iff.mp hP
  obtain ⟨hwait, hst⟩ := waitsIn_spec hw
  obtain ⟨hq, hlive⟩ := of_decide_eq_true hd
  refine ⟨c, hc, hwait, hst, hq, hlive, fun hacc => ?_⟩
  have hne : c.world.stHandler ≠ .txing := by
    rw [hst]
    decide
  have hbal := hacc.outside hne
  rw [ownQueued, hq, hacc.waiting hwait, hlive] at hbal
  cases hbal

end LayerOwnership
