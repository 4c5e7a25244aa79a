import HeyMacMbed.LayerLoop

/-!
# The transmit wake-up

While the layer listens, a queued frame needs the wake-up flag still to come. The
flag is lost in one way only: Lstning is given it together with the periodic
event and looks at the latter alone.
-/

open Bits Threads HeyMacLayer

namespace LayerWakeup

/-- A queued frame has its wake-up pending, or about to be posted by its sender. -/
def Waking (w : World) : Prop :=
  w.txQueue ≠ [] → has w.flags evtTxRdy = true ∨ 0 < w.halfDone

/-- The wait would give Lstning the last wake-up of a queued frame with a tick. -/
def Swallows (w : World) : Prop :=
  w.stHandler = .lstning ∧ has w.flags evtThrdPrdc = true ∧ has w.flags evtTxRdy = true ∧
    w.txQueue ≠ [] ∧ w.halfDone = 0

/-- Frames are queued for at once, no wait swallows a wake-up, and where the loop is about
to wait in Lstning a queued frame has its wake-up pending unless an enqueue is half done. -/
def contract : Contract Call World Event where
  envOk := fun _ e => match e with
    | .pushBack _ txTime => txTime = 0
    | _ => True
  opOk := fun o w => match o with
    | .flagsWaitAny => ¬ Swallows w
    | _ => True
  pre := fun o w => match o with
    | .flagsWaitAny => w.stHandler = .lstning → w.halfDone = 0 → w.txQueue ≠ [] →
        has w.flags evtTxRdy = true
    | _ => True

def ct : Contract Call World Event := contract.assuming NoEnter

theorem pre_of_quiet {o : Call} (ho : o.Quiet) (w : World) : ct.pre o w := by
  cases o <;> trivial

def Idle (w : World) : Prop := w.stHandler = .lstning → Waking w

/-- With the events `f` Lstning leaves for Setting or keeps the wake-up. -/
def Busy (f : BitVec 32) (w : World) : Prop :=
  w.stHandler = .lstning →
    (has f evtThrdPrdc = false ∧ has f evtTxRdy = true ∧ has f evtSmEnter = false) ∨ Waking w

variable (p : Platform)

theorem waking_post {w : World} {f : BitVec 32} (h : Waking w) : Waking (w.post f) := by
  intro hq
  rcases h hq with hf | hh
  · exact Or.inl (w.post_flags f evtTxRdy hf)
  · exact Or.inr hh

theorem waking_latch {w : World} (h : Waking w) (m : Octets.Octet) (evt : BitVec 32) :
    Waking (w.latch m evt) := by
  unfold World.latch
  split
  · exact h
  · exact waking_post (w := w.setRadio _) h

theorem waking_stable : Stable (layer p) ct Waking := by
  rintro w w' h ⟨e, hok, he⟩
  cases Event.effect he with
  | post f starting n _ hn =>
    intro hq
    rcases hn with rfl | rfl
    · exact waking_post h hq
    · left
      have hself : has evtTxRdy evtTxRdy = true := rfl
      simp only [World.post, has_or, hself, Bool.or_true]
  | pushBack frm txTime =>
    have ht : txTime = 0 := hok
    intro _
    right
    simp only [ht, if_true]
    omega
  | others e n => exact h
  | changeFrame frm f => exact h
  | validHeader _ => exact waking_latch h loraIrqValidHeader evtDioValidHdr
  | rxDone _ => exact waking_latch h loraIrqRxDone evtDioRxDone

/-- In state `st` with the wake-up kept. -/
theorem atWaking_stable (st : St) :
    Stable (layer p) ct fun w => w.stHandler = st ∧ Waking w :=
  (stHandler_stable p ct st).and (waking_stable p)

theorem at_blind (st : St) : Blind fun w => w.stHandler = st := fun _ _ _ _ _ _ _ h => h

theorem atWaking_blind (st : St) : Blind fun w => w.stHandler = st ∧ Waking w :=
  fun _ _ _ _ _ _ _ h => h

theorem idle_stable : Stable (layer p) ct Idle :=
  stable_stHandler (P := fun st w => st = .lstning → Waking w) fun _ => (waking_stable p).imp

theorem busy_stable (f : BitVec 32) : Stable (layer p) ct (Busy f) := by
  refine stable_stHandler (P := fun st w => st = .lstning → _ ∨ Waking w) fun st => ?_
  rintro w w' h hr hst
  rcases h hst with hf | hw
  · exact Or.inl hf
  · exact Or.inr (waking_stable p w w' hw hr)

/-- Waiting gives Lstning its events without losing a wake-up. -/
theorem wait_busy {w : World} (h : Idle w) (hok : ct.opOk .flagsWaitAny w) :
    Busy w.flags { w with flags := w.flags &&& ~~~evtAll } := by
  obtain ⟨hns, hne⟩ := hok
  intro hst
  by_cases hrdy : has w.flags evtTxRdy = true
  · by_cases hprdc : has w.flags evtThrdPrdc = true
    · right
      intro hq
      by_contra hn
      have h0 : w.halfDone = 0 := by
        have hn2 : ¬ 0 < w.halfDone := fun hh => hn (Or.inr hh)
        omega
      exact hns ⟨hst, hprdc, hrdy, hq, h0⟩
    · exact Or.inl ⟨by simpa using hprdc, hrdy, hne⟩
  · right
    intro hq
    rcases h hst hq with hf | hh
    · exact absurd hf hrdy
    · exact Or.inr hh

section Handlers
variable {p} {f : BitVec 32} {w : World}

/-- Anything may happen in a state that does not listen. -/
theorem idle_other {st : St} (hst : st ≠ .lstning) (h : w.stHandler = st) : Idle w :=
  fun hl => absurd (h.symm.trans hl) hst

theorem wp_other {st : St} {r : SmRet} (hst : st ≠ .lstning) (hr : r ≠ .tran)
    (hw : w.stHandler = st) : wp (layer p) ct (pure r) (Returned Idle Busy) w :=
  wp_return hr (stHandler_stable p ct st) hw fun _ hw => idle_other hst hw

/-- `SM_TRAN` to another state than Lstning. -/
theorem wp_smTran {P : World → Prop} {st : St} (hst : st ≠ .lstning)
    (hP : Stable (layer p) ct P) (hw : P w) :
    wp (layer p) ct (smTran st) (Returned Idle Busy) w :=
  wp_tran hP hw (fun _ _ => trivial) (stHandler_stable p ct st) (fun _ _ => rfl)
    fun _ hw hl => absurd (hw.symm.trans hl) hst

theorem handle_initing (hw : w.stHandler = .initing) :
    wp (layer p) ct (stIniting p f) (Returned Idle Busy) w :=
  wp_stIniting (stHandler_stable p ct .initing) (at_blind .initing)
    (fun _ w _ ho => pre_of_quiet ho w) hw
    (fun _ hw => wp_smTran (by decide) (stHandler_stable p ct .initing) hw)
    fun _ hw => wp_other (by decide) (by decide) hw

theorem handle_setting (hw : w.stHandler = .setting) :
    wp (layer p) ct (stSetting f) (Returned Idle Busy) w := by
  have hs := stHandler_stable p ct .setting
  have hb := at_blind .setting
  have done : ∀ {w : World}, w.stHandler = .setting →
      wp (layer p) ct (pure SmRet.handled) (Returned Idle Busy) w := fun hw =>
    wp_other (by decide) (by decide) hw
  have next : ∀ {w : World}, w.stHandler = .setting →
      wp (layer p) ct (perform (.flagsSet evtSmNext) >>= fun _ => pure SmRet.handled)
        (Returned Idle Busy) w := fun hw => by
    refine wp_perform hs hw (fun _ _ => trivial) fun w c r w' hw _ hx => ?_
    cases hx
    exact done hw
  unfold stSetting
  split
  · refine wp_quiet hs hb trivial (fun _ _ => trivial) hw fun sleep w hw => ?_
    split
    · refine wp_quiet hs hb trivial (fun _ _ => trivial) hw fun _ w hw => ?_
      exact done hw
    · exact next hw
  split
  · refine wp_quiet hs hb trivial (fun _ _ => trivial) hw fun _ w hw => ?_
    exact next hw
  split
  · refine wp_quiet hs hb trivial (fun _ _ => trivial) hw fun _ w hw => ?_
    refine wp_perform hs hw (fun _ _ => trivial) fun w c empty w' hw _ hx => ?_
    cases hx
    cases hq : w.txQueue with
    | nil =>
      -- the queue was empty: from here on every enqueue has its wake-up to come
      have hsw := atWaking_stable p .setting
      have hbw := atWaking_blind .setting
      have hww : w.stHandler = .setting ∧ Waking w := ⟨hw, fun hne => absurd hq hne⟩
      repeat refine wp_quiet hsw hbw trivial (fun _ _ => trivial) hww fun _ w hww => ?_
      exact wp_tran hsw hww (fun _ _ => trivial) (waking_stable p) (fun _ h => h.2)
        fun _ hw _ => Or.inr hw
    | cons d rest =>
      repeat refine wp_quiet hs hb trivial (fun _ _ => trivial) hw fun _ w hw => ?_
      exact wp_smTran (by decide) hs hw
  · exact wp_other (by decide) (by decide) hw

theorem handle_rxing (hw : w.stHandler = .rxing) :
    wp (layer p) ct (stRxing f) (Returned Idle Busy) w := by
  have hs := stHandler_stable p ct .rxing
  have done : ∀ {w : World}, w.stHandler = .rxing →
      wp (layer p) ct (pure SmRet.ignored) (Returned Idle Busy) w := fun hw =>
    wp_other (by decide) (by decide) hw
  unfold stRxing
  split
  · exact done hw
  split
  · exact wp_smTran (by decide) hs hw
  · exact done hw

theorem handle_txing (hw : w.stHandler = .txing) :
    wp (layer p) ct (stTxing f) (Returned Idle Busy) w := by
  have hs := stHandler_stable p ct .txing
  have hb := at_blind .txing
  unfold stTxing
  split
  · repeat refine wp_quiet hs hb trivial (fun _ _ => trivial) hw fun _ w hw => ?_
    refine wp_perform hs hw (fun _ _ => trivial) fun w c d w' hw _ hx => ?_
    obtain ⟨_, _, hx⟩ := Option.map_eq_some_iff.mp hx
    cases hx
    refine wp_perform hs hw (fun _ _ => trivial) fun w c r w' hw _ hx => ?_
    obtain ⟨_, _, hx⟩ := Option.map_eq_some_iff.mp hx
    cases hx
    refine wp_perform hs hw (fun _ _ => trivial) fun w c r w' hw _ hx => ?_
    cases hx
    refine wp_quiet hs hb trivial (fun _ _ => trivial) hw fun _ w hw => ?_
    exact wp_other (by decide) (by decide) hw
  split
  · exact wp_smTran (by decide) hs hw
  · exact wp_other (by decide) (by decide) hw

/-- The button's frame brings its own wake-up. -/
theorem wp_onBtn (hw : w.stHandler = .lstning ∧ Waking w) :
    wp (layer p) ct onBtn (Returned Idle Busy) w := by
  have hs := atWaking_stable p .lstning
  have hb := atWaking_blind .lstning
  unfold onBtn
  repeat refine wp_quiet hs hb trivial (fun _ _ => trivial) hw fun _ w hw => ?_
  refine wp_perform hs hw (fun _ _ => trivial) fun w c frm w' hw _ hx => ?_
  obtain ⟨_, hx⟩ := Option.ite_none_right_eq_some.mp hx
  cases hx
  repeat refine wp_quiet hs hb trivial (fun _ _ => trivial) hw fun _ w hw => ?_
  refine wp_bind ?_
  refine wp_perform hs hw (fun _ _ => trivial) fun w c r w' hw _ hx => ?_
  cases hx
  refine wp_last (stHandler_stable p ct .lstning) hw.1 (fun _ _ => trivial) fun w c r w' hw _ hx => ?_
  cases hx
  have hself : has evtTxRdy evtTxRdy = true := rfl
  have hset : has (w.flags ||| evtTxRdy) evtTxRdy = true := by rw [has_or, hself, Bool.or_true]
  refine wp_pure hs (a := ()) ⟨hw, fun _ => Or.inl hset⟩ fun w hw => ?_
  exact wp_return (by decide) hs hw fun _ hw _ => hw.2

theorem handle_lstning (hw : w.stHandler = .lstning) (hbusy : Busy f w) :
    wp (layer p) ct (stLstning f) (Returned Idle Busy) w := by
  have hs := atWaking_stable p .lstning
  have hb := atWaking_blind .lstning
  have keeps : has f evtThrdPrdc = true ∨ has f evtTxRdy = false ∨ has f evtSmEnter = true →
      w.stHandler = .lstning ∧ Waking w := by
    intro hcase
    refine ⟨hw, ?_⟩
    rcases hbusy hw with ⟨h1, h2, h3⟩ | h
    · rcases hcase with hc | hc | hc
      · rw [h1] at hc
        cases hc
      · rw [h2] at hc
        cases hc
      · rw [h3] at hc
        cases hc
    · exact h
  have stays : ∀ {r : SmRet} {w : World}, r ≠ .tran → w.stHandler = .lstning ∧ Waking w →
      wp (layer p) ct (pure r) (Returned Idle Busy) w := fun hr hw =>
    wp_return hr hs hw fun _ hw _ => hw.2
  unfold stLstning
  split
  · rename_i h
    have hkeep := keeps (Or.inr (Or.inr h))
    repeat refine wp_quiet hs hb trivial (fun _ _ => trivial) hkeep fun _ w hkeep => ?_
    exact stays (by decide) hkeep
  split
  · rename_i h
    refine wp_quiet hs hb trivial (fun _ _ => trivial) (keeps (Or.inl h)) fun _ w hw => ?_
    exact stays (by decide) hw
  split
  · refine wp_quiet (stHandler_stable p ct .lstning) (at_blind .lstning) trivial (fun _ _ => trivial) hw
      fun _ w hw => ?_
    exact wp_smTran (by decide) (stHandler_stable p ct .lstning) hw
  rename_i hrdy
  have hkeep := keeps (Or.inr (Or.inl (by simpa using hrdy)))
  split
  · exact wp_onBtn hkeep
  split
  · exact wp_smTran (by decide) hs hkeep
  · exact stays (by decide) hkeep

end Handlers

theorem loopProof : LoopProof p ct (fun _ => True) Idle Busy where
  boot_stable := Stable.const
  idle_stable := idle_stable p
  busy_stable := busy_stable p
  boot_pre := fun _ _ => trivial
  idle_pre := fun w h hst h0 hq => by
    rcases h hst hq with hf | hh
    · exact hf
    · omega
  busy_pre := fun _ _ _ => ⟨trivial, trivial⟩
  noEnter := fun _ h => h.2
  fresh := fun _ _ => trivial
  boot := fun w _ hst => by cases hst
  wait := fun w h hok => wait_busy h hok
  attach := fun _ _ h => h
  handle := fun st f w _ hst hb => by
    cases st with
    | initing => exact handle_initing hst
    | setting => exact handle_setting hst
    | lstning => exact handle_lstning hst hb
    | rxing => exact handle_rxing hst
    | txing => exact handle_txing hst

/-- In every run in which frames are queued for at once and no wait in Lstning takes the
last wake-up of a queued frame together with a tick: where the loop is about to wait
in Lstning and no enqueue is half done, a queued frame has its wake-up pending. -/
theorem tx_rdy_pending {c : LayerConfig} (h : (layer p).Reach Started contract.guard c)
    (hwait : c.prog.nextOp = some .flagsWaitAny) (hst : c.world.stHandler = .lstning)
    (hdone : c.world.halfDone = 0) (hq : c.world.txQueue ≠ []) :
    has c.world.flags evtTxRdy = true := by
  have hwp := (loopProof p).reach_assuming h
  exact pre_of_wp hwp hwait hst hdone hq

/-! Runs on fixed inputs. -/

instance (w : World) : Decidable (Swallows w) := inferInstanceAs (Decidable (_ ∧ _))

/-- Other threads queue for at once. -/
def asap : Event → Bool
  | .pushBack _ txTime => txTime == 0
  | _ => true

theorem asap_spec {e : Event} (w : World) (h : asap e = true) : contract.envOk w e := by
  cases e with
  | pushBack frm txTime => exact eq_of_beq h
  | _ => trivial

theorem testStep_guard (c : LayerConfig) (l : Label Event Choice)
    (h : testStep asap (fun w => decide (Swallows w)) c l = true) : contract.guard c l := by
  cases l with
  | env e => exact asap_spec c.world h
  | act ch =>
    intro o ho
    cases o with
    | flagsWaitAny => exact of_decide_eq_false (testStep_wait h ho)
    | _ => trivial

/-- A frame is queued while the loop waits in Lstning: its wake-up is pending. -/
theorem tx_rdy_pending_queued : ∃ c : LayerConfig,
    (layer .plain).Reach Started contract.guard c ∧ c.world.txQueue ≠ [] ∧
      has c.world.flags evtTxRdy = true := by
  obtain ⟨c, hc, hP⟩ := reach_plain testStep_guard
    (toLstning ++ [.env (.pushBack 0 0), .env .postTxRdy])
    (fun c => waitsIn c .lstning && decide (c.world.halfDone = 0 ∧ c.world.txQueue ≠ []))
    (by decide +kernel)
  obtain ⟨hw, hd⟩ := Bool.and_eq_true_iff.mp hP
  obtain ⟨hwait, hst⟩ := waitsIn_spec hw
  obtain ⟨h0, hq⟩ := of_decide_eq_true hd
  exact ⟨c, hc, hq, tx_rdy_pending .plain hc hwait hst h0 hq⟩

/-- Frames are queued for at once; nothing is assumed of the waits. -/
def Asap (_ : LayerConfig) : Label Event Choice → Prop
  | .env (.pushBack _ txTime) => txTime = 0
  | _ => True

theorem asap_guard (c : LayerConfig) (l : Label Event Choice)
    (h : testStep asap (fun _ => false) c l = true) : Asap c l := by
  cases l with
  | env e =>
    cases e with
    | pushBack frm txTime => exact eq_of_beq h
    | _ => trivial
  | act ch => trivial

/-- A frame is queued while the loop waits in Lstning, and the ticker's event is delivered
together with its wake-up: the loop waits again with the frame queued and nothing pending. -/
theorem tick_swallows_tx_rdy : ∃ c : LayerConfig,
    (layer .plain).Reach Started Asap c ∧
      c.prog.nextOp = some .flagsWaitAny ∧ c.world.stHandler = .lstning ∧
      c.world.halfDone = 0 ∧ c.world.txQueue ≠ [] ∧ c.world.flags = 0 := by
  obtain ⟨c, hc, hP⟩ := reach_plain asap_guard
    (toLstning ++ [.env (.pushBack 0 0), .env .postTxRdy, .env .tick] ++ acts 4)
    (fun c => waitsIn c .lstning &&
      decide (c.world.halfDone = 0 ∧ c.world.txQueue ≠ [] ∧ c.world.flags = 0))
    (by decide +kernel)
  obtain ⟨hw, hd⟩ := Bool.and_eq_true_iff.mp hP
  obtain ⟨hwait, hst⟩ := waitsIn_spec hw
  exact ⟨c, hc, hwait, hst, of_decide_eq_true hd⟩

end LayerWakeup
