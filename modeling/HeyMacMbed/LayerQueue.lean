import HeyMacMbed.LayerLoop

/-!
# The transmit queue

Every frame ever queued has been written to the FIFO or is in the queue still, in
order; the one moment in between is the call that writes it. Txing pops only what
Setting has seen, since nobody else pops.
-/

open Bits Octets Threads HeyMacLayer

namespace LayerQueue

/-- The frames in the queue. -/
def queued (w : World) : List FrmRef := w.txQueue.map TxData.frm

/-- The frame popped and about to be written. -/
def inHand : Call → List FrmRef
  | .writeFifo frm => [frm]
  | _ => []

/-- The history of the queue before a call, and a frame to take where one is taken. -/
def contract : Contract Call World Event where
  envOk := fun _ _ => True
  opOk := fun _ _ => True
  pre := fun o w => w.enqueued = w.written ++ inHand o ++ queued w ∧
    match o with
    | .txQueueFront | .txQueuePopFront => w.txQueue ≠ []
    | _ => True

def ct : Contract Call World Event := contract.assuming NoEnter

def InOrder (w : World) : Prop := w.enqueued = w.written ++ queued w

def Full (w : World) : Prop := InOrder w ∧ w.txQueue ≠ []

/-- Txing is entered with a frame to send. -/
def Busy (f : BitVec 32) (w : World) : Prop :=
  InOrder w ∧ (w.stHandler = .txing → has f evtSmEnter = true → w.txQueue ≠ [])

variable (p : Platform)

theorem inOrder_stable : Stable (layer p) ct InOrder := by
  refine stable_of_around fun w w' ha h => ?_
  obtain ⟨more, hq, he, _⟩ := ha.queue
  simp only [InOrder, queued] at h ⊢
  rw [he, ha.written, hq, h, List.map_append, List.append_assoc]

theorem nonempty_stable : Stable (layer p) ct fun w => w.txQueue ≠ [] := by
  refine stable_of_around fun w w' ha h => ?_
  obtain ⟨more, hq, _, _⟩ := ha.queue
  rw [hq]
  exact List.append_ne_nil_of_left_ne_nil h more

theorem full_stable : Stable (layer p) ct Full := (inOrder_stable p).and (nonempty_stable p)

theorem busy_stable (f : BitVec 32) : Stable (layer p) ct (Busy f) := by
  have htx : Stable (layer p) ct fun w =>
      w.stHandler = .txing → has f evtSmEnter = true → w.txQueue ≠ [] :=
    stable_stHandler (P := fun st w => st = .txing → has f evtSmEnter = true → w.txQueue ≠ [])
      fun _ => (nonempty_stable p).imp.imp
  exact (inOrder_stable p).and htx

/-- A popped frame in hand. -/
def Held (frm : FrmRef) (w : World) : Prop := w.enqueued = w.written ++ [frm] ++ queued w

theorem held_stable (frm : FrmRef) : Stable (layer p) ct (Held frm) := by
  refine stable_of_around fun w w' ha h => ?_
  obtain ⟨more, hq, he, _⟩ := ha.queue
  simp only [Held, queued] at h ⊢
  rw [he, ha.written, hq, h, List.map_append, List.append_assoc]

theorem inOrder_blind : Blind InOrder := fun _ _ _ _ _ _ _ h => h

theorem full_blind : Blind Full := fun _ _ _ _ _ _ _ h => h

/-- Calls of which nothing but the order of frames is asserted. -/
def Plain : Call → Prop
  | .txQueueFront | .txQueuePopFront | .writeFifo _ => False
  | _ => True

theorem pre_plain {o : Call} {w : World} (h : InOrder w) (ho : Plain o) : ct.pre o w := by
  have hmid : w.enqueued = w.written ++ [] ++ queued w := by
    rw [List.append_nil]
    exact h
  cases o <;> first | exact ⟨hmid, trivial⟩ | cases ho

theorem quiet_plain {o : Call} (ho : o.Quiet) : Plain o := by cases o <;> trivial

section Handlers
variable {p} {f : BitVec 32} {w : World}

/-- A quiet call. -/
theorem wp_go {P : World → Prop} {α : Type} {Q : α → World → Prop} {o : Call}
    {k : o.Res → LayerProg α} (hs : Stable (layer p) ct P) (hb : Blind P)
    (hi : ∀ w, P w → InOrder w) (ho : o.Quiet) (hw : P w)
    (h : ∀ r w, P w → wp (layer p) ct (k r) Q w) : wp (layer p) ct (perform o >>= k) Q w :=
  wp_quiet hs hb ho (fun w hw => pre_plain (hi w hw) (quiet_plain ho)) hw h

theorem wp_smTran {st : St} (hst : st ≠ .txing) (hw : InOrder w) :
    wp (layer p) ct (smTran st) (Returned InOrder Busy) w :=
  wp_tran (inOrder_stable p) hw (fun _ h => pre_plain h trivial) (busy_stable p evtSmEnter)
    (fun _ h => ⟨h, fun h => absurd h hst⟩) fun _ h => h

theorem wp_smTran_txing (hw : Full w) :
    wp (layer p) ct (smTran .txing) (Returned InOrder Busy) w :=
  wp_tran (full_stable p) hw (fun _ h => pre_plain h.1 trivial) (busy_stable p evtSmEnter)
    (fun _ h => ⟨h.1, fun _ _ => h.2⟩) fun _ h => h

theorem wp_stay {r : SmRet} (hr : r ≠ .tran) (hw : InOrder w) :
    wp (layer p) ct (pure r) (Returned InOrder Busy) w :=
  wp_return hr (inOrder_stable p) hw fun _ h => h

theorem handle_initing (hw : InOrder w) :
    wp (layer p) ct (stIniting p f) (Returned InOrder Busy) w :=
  wp_stIniting (inOrder_stable p) inOrder_blind (fun _ _ h ho => pre_plain h (quiet_plain ho)) hw
    (fun _ h => wp_smTran (by decide) h) fun _ h => wp_stay (by decide) h

theorem handle_setting (hw : InOrder w) :
    wp (layer p) ct (stSetting f) (Returned InOrder Busy) w := by
  have hs := inOrder_stable p
  have hb := inOrder_blind
  have next : ∀ {w : World}, InOrder w →
      wp (layer p) ct (perform (.flagsSet evtSmNext) >>= fun _ => pure SmRet.handled)
        (Returned InOrder Busy) w := fun hw => by
    refine wp_perform hs hw (fun _ h => pre_plain h trivial) fun w c r w' hw _ hx => ?_
    cases hx
    exact wp_stay (by decide) hw
  unfold stSetting
  split
  · refine wp_go hs hb (fun _ h => h) trivial hw fun sleep w hw => ?_
    split
    · refine wp_go hs hb (fun _ h => h) trivial hw fun _ w hw => ?_
      exact wp_stay (by decide) hw
    · exact next hw
  split
  · refine wp_go hs hb (fun _ h => h) trivial hw fun _ w hw => ?_
    exact next hw
  split
  · refine wp_go hs hb (fun _ h => h) trivial hw fun _ w hw => ?_
    refine wp_perform hs hw (fun _ h => pre_plain h trivial) fun w c empty w' hw _ hx => ?_
    cases hx
    cases hq : w.txQueue with
    | nil =>
      repeat refine wp_go hs hb (fun _ h => h) trivial hw fun _ w hw => ?_
      exact wp_smTran (by decide) hw
    | cons d rest =>
      have hne : w.txQueue ≠ [] := by
        rw [hq]
        exact List.cons_ne_nil d rest
      have hfull : Full w := ⟨hw, hne⟩
      repeat
        refine wp_go (full_stable p) full_blind (fun _ h => h.1) trivial hfull fun _ w hfull => ?_
      exact wp_smTran_txing hfull
  · exact wp_stay (by decide) hw

theorem inOrder_pushBack {d : TxData} (h : InOrder w) : InOrder (w.pushBack d) := by
  simp only [InOrder, queued, World.pushBack, List.map_append] at h ⊢
  rw [h, List.append_assoc]
  rfl

theorem wp_enqTxFrame (frm : FrmRef) (txTime : BitVec 32) (hw : InOrder w) :
    wp (layer p) ct (enqTxFrame frm txTime) (fun _ w => InOrder w) w := by
  have hs := inOrder_stable p
  unfold enqTxFrame
  refine wp_perform hs hw (fun _ h => pre_plain h trivial) fun w c r w' hw _ hx => ?_
  have hw' : InOrder w' := by
    cases frm <;> cases hx <;> exact inOrder_pushBack hw
  split
  · refine wp_last hs hw' (fun _ h => pre_plain h trivial) fun w c r w' hw _ hx => ?_
    cases hx
    exact wp_pure hs hw fun _ hw => hw
  · exact wp_pure hs hw' fun _ hw => hw

theorem wp_onBtn (hw : InOrder w) :
    wp (layer p) ct onBtn (Returned InOrder Busy) w := by
  have hs := inOrder_stable p
  have hb := inOrder_blind
  unfold onBtn
  repeat refine wp_go hs hb (fun _ h => h) trivial hw fun _ w hw => ?_
  refine wp_perform hs hw (fun _ h => pre_plain h trivial) fun w c frm w' hw _ hx => ?_
  obtain ⟨_, hx⟩ := Option.ite_none_right_eq_some.mp hx
  cases hx
  repeat refine wp_go hs hb (fun _ h => h) trivial hw fun _ w hw => ?_
  exact wp_bind (wp_mono (fun _ _ hw => wp_stay (by decide) hw) (wp_enqTxFrame _ 0 hw))

theorem handle_lstning (hw : InOrder w) :
    wp (layer p) ct (stLstning f) (Returned InOrder Busy) w := by
  have hs := inOrder_stable p
  have hb := inOrder_blind
  unfold stLstning
  split
  · repeat refine wp_go hs hb (fun _ h => h) trivial hw fun _ w hw => ?_
    exact wp_stay (by decide) hw
  split
  · refine wp_go hs hb (fun _ h => h) trivial hw fun _ w hw => ?_
    exact wp_stay (by decide) hw
  split
  · refine wp_go hs hb (fun _ h => h) trivial hw fun _ w hw => ?_
    exact wp_smTran (by decide) hw
  split
  · exact wp_onBtn hw
  split
  · exact wp_smTran (by decide) hw
  · exact wp_stay (by decide) hw

theorem handle_rxing (hw : InOrder w) :
    wp (layer p) ct (stRxing f) (Returned InOrder Busy) w := by
  unfold stRxing
  split
  · exact wp_stay (by decide) hw
  split
  · exact wp_smTran (by decide) hw
  · exact wp_stay (by decide) hw

/-- The front of the queue is the frame that is popped next. -/
def FrontIs (d : TxData) (w : World) : Prop := InOrder w ∧ w.txQueue.head? = some d

theorem frontIs_stable (d : TxData) : Stable (layer p) ct (FrontIs d) := by
  refine (inOrder_stable p).and (stable_of_around fun w w' ha h => ?_)
  obtain ⟨more, hq, _, _⟩ := ha.queue
  rw [hq]
  cases hl : w.txQueue with
  | nil =>
    rw [hl] at h
    cases h
  | cons e rest =>
    rw [hl] at h
    exact h

theorem handle_txing (hw : w.stHandler = .txing) (hb : Busy f w) :
    wp (layer p) ct (stTxing f) (Returned InOrder Busy) w := by
  unfold stTxing
  split
  · rename_i hent
    have hfull : Full w := ⟨hb.1, hb.2 hw hent⟩
    have hs := full_stable p
    repeat refine wp_go hs full_blind (fun _ h => h.1) trivial hfull fun _ w hfull => ?_
    have hpre : ∀ w, InOrder w → w.txQueue ≠ [] →
        ct.pre .txQueueFront w ∧ ct.pre .txQueuePopFront w := by
      intro w h hne
      have hmid : w.enqueued = w.written ++ [] ++ queued w := by
        rw [List.append_nil]
        exact h
      exact ⟨⟨hmid, hne⟩, ⟨hmid, hne⟩⟩
    refine wp_perform hs hfull (fun w h => (hpre w h.1 h.2).1) fun w c d w' hfull _ hx => ?_
    obtain ⟨d', hd, hx⟩ := Option.map_eq_some_iff.mp hx
    cases hx
    have hne : ∀ w, FrontIs d w → w.txQueue ≠ [] := by
      rintro w ⟨_, hd⟩ hnil
      rw [hnil] at hd
      cases hd
    refine wp_perform (frontIs_stable d) ⟨hfull.1, hd⟩ (fun w h => (hpre w h.1 (hne w h)).2)
      fun w c r w' hd _ hx => ?_
    obtain ⟨hord, hhead⟩ := hd
    obtain ⟨d', hd', hx⟩ := Option.map_eq_some_iff.mp hx
    cases hx
    have hheld : Held d.frm { w with txQueue := w.txQueue.tail, sending := some d'.frm } := by
      cases hl : w.txQueue with
      | nil =>
        rw [hl] at hhead
        cases hhead
      | cons e rest =>
        rw [hl] at hhead
        cases hhead
        simp only [InOrder, queued, hl] at hord
        simp only [Held, queued, List.tail_cons]
        rw [hord, List.map_cons, List.append_assoc, List.singleton_append]
    refine wp_perform (held_stable p d.frm) hheld (fun w h => ⟨h, trivial⟩)
      fun w c r w' hw _ hx => ?_
    cases hx
    refine wp_go (inOrder_stable p) inOrder_blind (fun _ h => h) trivial hw fun _ w hw => ?_
    exact wp_stay (by decide) hw
  split
  · exact wp_smTran (by decide) hb.1
  · exact wp_stay (by decide) hb.1

end Handlers

theorem loopProof : LoopProof p ct InOrder InOrder Busy where
  boot_stable := inOrder_stable p
  idle_stable := inOrder_stable p
  busy_stable := busy_stable p
  boot_pre := fun _ h => pre_plain h trivial
  idle_pre := fun _ h => pre_plain h trivial
  busy_pre := fun _ _ h => ⟨pre_plain h.1 trivial, pre_plain h.1 trivial⟩
  noEnter := fun _ h => h.2
  fresh := fun w h => by rw [InOrder, queued, h.enqueued, h.written, h.txQueue]; rfl
  boot := fun _ h => h
  wait := fun w h hok => ⟨h, fun _ he => by
    have hne : has w.flags evtSmEnter = false := hok.2
    rw [hne] at he
    cases he⟩
  attach := fun _ _ h => h
  handle := fun st f w _ hst hb => by
    cases st with
    | initing => exact handle_initing hb.1
    | setting => exact handle_setting hb.1
    | lstning => exact handle_lstning hb.1
    | rxing => exact handle_rxing hb.1
    | txing => exact handle_txing hst hb

/-- The first `get_frm_sz()` octets of a frame. -/
def frmOctets (f : HeyMacFrame) : List Octet := get f.frm 0 f.getFrmSz.toNat

theorem getBufSz_toNat (f : HeyMacFrame) : f.getBufSz.toNat = f.getFrmSz.toNat + 1 := by
  have hlt : f.getFrmSz.toNat < 65535 := by
    unfold HeyMacFrame.getFrmSz
    have h1 := f.payldOffset.isLt
    have h2 := f.payldSz.isLt
    have h3 := f.micSz.isLt
    have h4 := f.rxdSz.isLt
    split
    · rw [BitVec.toNat_setWidth]
      omega
    · simp only [BitVec.toNat_ofNat]
      have h5 := HeyMacFrame.mhopSz_toNat f.fctl
      have h6 := HeyMacFrame.mhopLen_le f.fctl
      rw [h5]
      omega
  rw [HeyMacFrame.getBufSz, BitVec.toNat_add]
  simp only [HeyMacFrame.sFrameStart, BitVec.toNat_ofNat]
  omega

/-- What writing a frame does: one transfer of the command and the frame's octets. -/
structure Writes (frm : FrmRef) (w w' : World) : Prop where
  written : w'.written = w.written ++ [frm]
  fifo : w'.radio.chip.fifo = w.radio.chip.fifo ++ frmOctets (w.frames frm)
  xfers : w'.radio.chip.xfers = w.radio.chip.xfers ++ [0x80 :: frmOctets (w.frames frm)]

theorem exec_writeFifo {frm : FrmRef} {ch : Choice} {w w' : World} {r : Unit}
    (h : Call.exec p (.writeFifo frm) ch w = some (r, w')) : Writes frm w w' := by
  cases h
  have hsz := getBufSz_toNat (w.frames frm)
  have hpos : 0 < (w.frames frm).getBufSz.toNat := by omega
  have hchip := SX127xRadio.writeFifo_chip w.radio (w.frames frm).buf hpos
  have hoct : get (w.frames frm).buf 1 ((w.frames frm).getBufSz.toNat - 1) =
      frmOctets (w.frames frm) := by
    rw [hsz, Nat.add_sub_cancel]
    exact get_congr fun k _ => congrArg _ (congrArg (1 + ·) (Nat.zero_add k).symm)
  rw [hoct] at hchip
  exact ⟨rfl, congrArg Chip.fifo hchip, congrArg Chip.xfers hchip⟩

/-- Frames are written in the order they were queued, none twice and none lost, and none
is taken from an empty queue. -/
structure History (c : LayerConfig) : Prop where
  order : (∀ frm, c.prog.nextOp ≠ some (.writeFifo frm)) →
    c.world.enqueued = c.world.written ++ queued c.world
  writing : ∀ frm, c.prog.nextOp = some (.writeFifo frm) →
    c.world.enqueued = c.world.written ++ [frm] ++ queued c.world
  front : c.prog.nextOp = some .txQueueFront → c.world.txQueue ≠ []
  popFront : c.prog.nextOp = some .txQueuePopFront → c.world.txQueue ≠ []

theorem history_of_wp {c : LayerConfig}
    (h : wp (layer p) ct c.prog (LoopInv InOrder Busy) c.world) : History c := by
  obtain ⟨w, q⟩ := c
  cases q with
  | ret l =>
    obtain ⟨_, _, hret⟩ := h w .refl
    have hord : InOrder w := by
      unfold Returned at hret
      split at hret
      · exact hret.1
      · exact hret
    refine ⟨fun _ => hord, fun frm ho => ?_, fun ho => ?_, fun ho => ?_⟩ <;> cases ho
  | call o k =>
    obtain ⟨hmid, hne⟩ : ct.pre o w := wp_pre h
    refine ⟨fun hn => ?_, fun frm ho => ?_, fun ho => ?_, fun ho => ?_⟩
    · have hnil : inHand o = [] := by
        cases o with
        | writeFifo frm => exact absurd rfl (hn frm)
        | _ => rfl
      rw [hnil, List.append_nil] at hmid
      exact hmid
    · cases ho
      exact hmid
    · cases ho
      exact hne
    · cases ho
      exact hne

/-- In every run: the queue's history at each moment, and the octets of each write. -/
theorem tx_queue_history {c : LayerConfig}
    (h : (layer p).Reach Started (fun _ _ => True) c) :
    History c ∧ ∀ frm ch c', c.prog.nextOp = some (.writeFifo frm) →
      (layer p).step c (.act ch) = some c' → Writes frm c.world c'.world := by
  have hg : (layer p).Reach Started contract.guard c :=
    reach_guard (fun _ _ => trivial) (fun _ _ _ _ => trivial) h
  have hwp := (loopProof p).reach_assuming hg
  refine ⟨history_of_wp p hwp, fun frm ch c' ho hstep => ?_⟩
  obtain ⟨w, q⟩ := c
  cases q with
  | ret l => cases ho
  | call o k =>
    cases ho
    have hmap : ((layer p).exec (.writeFifo frm) ch w).map
        (fun x => (⟨x.2, k x.1⟩ : LayerConfig)) = some c' := hstep
    obtain ⟨⟨r, w'⟩, hx, rfl⟩ := Option.map_eq_some_iff.mp hmap
    have hexec : Call.exec p (.writeFifo frm) ch w = some (r, w') := hx
    exact exec_writeFifo p hexec

/-- The next call writes a frame of another thread. -/
def writesExt (c : LayerConfig) : Bool :=
  match c.prog.nextOp with
  | some (.writeFifo (.ext _)) => true
  | _ => false

/-- A frame is queued while the loop waits in Lstning and sent: the moment of its write. -/
theorem tx_queue_history_write : ∃ c : LayerConfig, writesExt c = true ∧
    History c ∧ ∀ frm ch c', c.prog.nextOp = some (.writeFifo frm) →
      (layer .plain).step c (.act ch) = some c' → Writes frm c.world c'.world := by
  obtain ⟨c, hc, hP⟩ := reach_plain anyStep_guard
    (toLstning ++ [.env (.pushBack 0 0), .env .postTxRdy] ++ acts 23) writesExt
    (by decide +kernel)
  exact ⟨c, hP, tx_queue_history .plain hc⟩

/-- Between the pop and the write a frame is neither queued nor written. -/
theorem tx_queue_in_hand : ∃ c : LayerConfig,
    (layer .plain).Reach Started (fun _ _ => True) c ∧ c.world.enqueued = [.ext 0] ∧
      c.world.written = [] ∧ queued c.world = [] ∧
      c.world.enqueued ≠ c.world.written ++ queued c.world := by
  obtain ⟨c, hc, hP⟩ := reach_plain anyStep_guard
    (toLstning ++ [.env (.pushBack 0 0), .env .postTxRdy] ++ acts 23)
    (fun c => decide (c.world.enqueued = [.ext 0] ∧ c.world.written = [] ∧ queued c.world = []))
    (by decide +kernel)
  obtain ⟨he, hw, hq⟩ := of_decide_eq_true hP
  refine ⟨c, hc, he, hw, hq, ?_⟩
  rw [he, hw, hq]
  exact List.cons_ne_nil _ _

end LayerQueue
