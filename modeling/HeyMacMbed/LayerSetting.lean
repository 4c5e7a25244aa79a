import HeyMacMbed.LayerTrace

/-!
# Leaving Setting

Setting reminds itself to go on by posting `EVT_SM_NEXT`. The reminder is
pending wherever the loop waits there, unless the radio is on its way to sleep, and
it is pending nowhere else; what else is pending with it does not matter.
-/

open Bits Threads HeyMacLayer

namespace LayerSetting

/-- The radio was commanded to sleep for a change of LoRa mode, still outstanding. -/
def Asleep (w : World) : Prop :=
  w.opMode = some .sleep ∧ w.radio.stngsRequireSleep = true

def NoNext (w : World) : Prop := has w.flags evtSmNext = false

def Reminded (w : World) : Prop := has w.flags evtSmNext = true

/-- The call returns, whatever it finds. -/
def Total : Call → Prop
  | .flagsWaitAny | .txQueueFront | .txQueuePopFront | .strlen _ | .newFrame => False
  | _ => True

theorem total_exec (p : Platform) {o : Call} (ho : Total o) (ch : Choice) (w : World) :
    (Call.exec p o ch w).isSome := by
  cases o with
  | flagsWaitAny => cases ho
  | txQueueFront => cases ho
  | txQueuePopFront => cases ho
  | strlen s => cases ho
  | newFrame => cases ho
  | radio c => cases c <;> rfl
  | txQueuePushBack d =>
    obtain ⟨frm, t⟩ := d
    cases frm <;> rfl
  | _ => rfl

/-- Where the loop waits it is reminded or the radio asleep, in Setting, and not reminded
elsewhere. In Setting nothing else is waited for. -/
def contract : Contract Call World Event where
  envOk := fun _ _ => True
  opOk := fun _ _ => True
  pre := fun o w => match o with
    | .flagsWaitAny => (w.stHandler = .setting → Reminded w ∨ Asleep w) ∧
        (w.stHandler ≠ .setting → NoNext w)
    | o => w.stHandler = .setting → Total o

def ct : Contract Call World Event := contract.assuming NoEnter

def Idle (w : World) : Prop :=
  (w.stHandler = .setting → Reminded w ∨ Asleep w) ∧ (w.stHandler ≠ .setting → NoNext w)

/-- A handler has all reminders among its events `f`. -/
def Busy (f : BitVec 32) (w : World) : Prop :=
  NoNext w ∧ (w.stHandler = .setting →
    has f evtSmEnter = true ∨ has f evtSmNext = true ∨ Asleep w)

/-- In state `st`, not reminded. -/
def At (st : St) (w : World) : Prop := NoNext w ∧ w.stHandler = st

/-- Nobody around the thread reminds it. -/
theorem event_noNext {e : Event} {w w' : World} (h : NoNext w) (he : e.exec w = some w') :
    NoNext w' := event_clear rfl rfl rfl rfl (fun sig => by cases sig <;> rfl) h he

variable (p : Platform)

theorem noNext_stable : Stable (layer p) ct NoNext := by
  rintro w w' h ⟨e, _, he⟩
  exact event_noNext h he

theorem reminded_stable : Stable (layer p) ct Reminded :=
  stable_of_around fun _ _ ha h => ha.flags _ h

theorem requireSleep_stable (b : Bool) :
    Stable (layer p) ct fun w => w.radio.stngsRequireSleep = b :=
  stable_of_around fun _ _ ha h => by
    rw [SX127xRadio.stngsRequireSleep, ha.stngs, ha.applied]
    exact h

theorem asleep_stable : Stable (layer p) ct Asleep :=
  Stable.and (stable_of_around fun _ _ ha h => ha.opMode.trans h) (requireSleep_stable p true)

theorem at_stable (st : St) : Stable (layer p) ct (At st) :=
  (noNext_stable p).and (stHandler_stable p ct st)

theorem idle_stable : Stable (layer p) ct Idle := by
  refine stable_stHandler (P := fun st w => (st = .setting → Reminded w ∨ Asleep w) ∧
    (st ≠ .setting → NoNext w)) fun st => Stable.and (Stable.imp ?_) (noNext_stable p).imp
  rintro w w' (h | h) hr
  · exact Or.inl (reminded_stable p w w' h hr)
  · exact Or.inr (asleep_stable p w w' h hr)

theorem busy_stable (f : BitVec 32) : Stable (layer p) ct (Busy f) := by
  refine stable_stHandler (P := fun st w => NoNext w ∧ (st = .setting →
    has f evtSmEnter = true ∨ has f evtSmNext = true ∨ Asleep w)) fun st =>
      (noNext_stable p).and (Stable.imp ?_)
  rintro w w' (h | h | h) hr
  · exact Or.inl h
  · exact Or.inr (Or.inl h)
  · exact Or.inr (Or.inr (asleep_stable p w w' h hr))

theorem at_blind (st : St) : Blind (At st) := fun _ _ _ _ _ _ _ h => h

/-- A wait takes the reminder along. -/
theorem noNext_wait (w : World) : NoNext { w with flags := w.flags &&& ~~~evtAll } := by
  have hall : has (w.flags &&& ~~~evtAll) (evtAll ||| evtSmNext) = false :=
    has_clear_same w.flags evtAll
  rw [has_mask_or, Bool.or_eq_false_iff] at hall
  exact hall.2

theorem wait_busy {w : World} (h : Idle w) :
    Busy w.flags { w with flags := w.flags &&& ~~~evtAll } := by
  refine ⟨noNext_wait w, fun hst => Or.inr ?_⟩
  rcases h.1 hst with hn | ha
  · exact Or.inl hn
  · exact Or.inr ha

section Handlers
variable {p} {f : BitVec 32} {w : World} {α : Type} {Q : α → World → Prop}

/-- Calls that neither set the handler nor remind. -/
def Keeping : Call → Prop
  | .flagsWaitAny | .setStHandler _ => False
  | .flagsSet f => has f evtSmNext = false
  | _ => True

theorem keeping_keeps {o : Call} (ho : Keeping o) (st : St) : Keeps (layer p) ct (At st) o := by
  intro w ch r w' h _ hx
  have hf := (exec_frame hx).flags
  have hs := (exec_frame hx).stHandler
  obtain ⟨hn, hst⟩ := h
  unfold NoNext at hn
  cases o with
  | flagsWaitAny => cases ho
  | setStHandler st' => cases ho
  | flagsSet f =>
    refine ⟨?_, hs.trans hst⟩
    rw [NoNext, hf, has_or, hn]
    exact ho
  | _ =>
    refine ⟨?_, hs.trans hst⟩
    rw [NoNext, hf]
    exact hn

theorem pre_other {o : Call} (ho : Keeping o) {st : St} (hst : st = .setting → Total o) (w : World)
    (hw : w.stHandler = st) : ct.pre o w := by
  cases o with
  | flagsWaitAny => cases ho
  | _ => exact fun hs => hst (hw.symm.trans hs)

theorem wp_go {o : Call} {k : o.Res → LayerProg α} {st : St} (ho : Keeping o)
    (hst : st = .setting → Total o) (hw : At st w)
    (h : ∀ r w, At st w → wp (layer p) ct (k r) Q w) :
    wp (layer p) ct (perform o >>= k) Q w :=
  wp_keep (at_stable p st) (fun w hw => pre_other ho hst w hw.2) (keeping_keeps ho st) hw h

/-- `SM_TRAN`: no reminder goes along. -/
theorem wp_smTran {st next : St} (hw : At st w) :
    wp (layer p) ct (smTran next) (Returned Idle Busy) w :=
  wp_tran (at_stable p st) hw (fun _ _ _ => trivial) (at_stable p next)
    (fun _ hw => ⟨hw.1, rfl⟩) fun _ hw => ⟨hw.1, fun _ => Or.inl rfl⟩

/-- Another state than Setting goes on waiting. -/
theorem wp_stay {st : St} {r : SmRet} (hr : r ≠ .tran) (hst : st ≠ .setting) (hw : At st w) :
    wp (layer p) ct (pure r) (Returned Idle Busy) w :=
  wp_return hr (at_stable p st) hw fun _ hw =>
    ⟨fun hs => absurd (hw.2.symm.trans hs) hst, fun _ => hw.1⟩

/-- Setting reminds itself and waits. -/
theorem wp_remind (hw : w.stHandler = .setting) :
    wp (layer p) ct (perform (.flagsSet evtSmNext) >>= fun _ => pure SmRet.handled)
      (Returned Idle Busy) w := by
  refine wp_perform (stHandler_stable p ct .setting) hw (fun _ _ _ => trivial)
    fun w c r w' hw _ hx => ?_
  cases hx
  have hnext : Reminded (w.post evtSmNext) := by
    have hself : has evtSmNext evtSmNext = true := rfl
    rw [Reminded, World.post, has_or, hself, Bool.or_true]
  refine wp_return (by decide) ((reminded_stable p).and (stHandler_stable p ct .setting))
    ⟨hnext, hw⟩ fun w hw => ?_
  exact ⟨fun _ => Or.inl hw.1, fun hs => absurd hw.2 hs⟩

/-- Setting waits for the radio to reach sleep mode. -/
theorem wp_await {r : SmRet} (hr : r ≠ .tran) (hw : w.stHandler = .setting ∧ Asleep w) :
    wp (layer p) ct (pure r) (Returned Idle Busy) w :=
  wp_return hr ((stHandler_stable p ct .setting).and (asleep_stable p)) hw fun _ hw =>
    ⟨fun _ => Or.inr hw.2, fun hs => absurd hw.1 hs⟩

/-- Entering Setting: sleep mode if LoRa mode is outstanding, a reminder if not. -/
theorem wp_enterSetting (hw : At .setting w) :
    wp (layer p) ct (perform .stngsRequireSleep >>= fun sleep =>
      if sleep then perform (.radio (.writeOpMode .sleep)) >>= fun _ => pure SmRet.handled
      else perform (.flagsSet evtSmNext) >>= fun _ => pure SmRet.handled)
      (Returned Idle Busy) w := by
  refine wp_perform (at_stable p .setting) hw (fun _ _ _ => trivial) fun w c sleep w' hw _ hx => ?_
  cases hx
  split
  · rename_i hsleep
    refine wp_perform ((stHandler_stable p ct .setting).and (requireSleep_stable p true))
      ⟨hw.2, hsleep⟩ (fun _ _ _ => trivial) fun w c r w' hw _ hx => ?_
    cases hx
    exact wp_await (by decide) ⟨hw.1, rfl, hw.2⟩
  · exact wp_remind hw.2

theorem handle_setting (hf : has f evtSmEnter = true ∨ has f evtSmNext = true ∨ Asleep w)
    (hw : At .setting w) : wp (layer p) ct (stSetting f) (Returned Idle Busy) w := by
  unfold stSetting
  split
  · exact wp_enterSetting hw
  rename_i hent
  split
  · exact wp_go trivial (fun _ => trivial) hw fun _ _ hw => wp_remind hw.2
  split
  · refine wp_go trivial (fun _ => trivial) hw fun _ w hw => ?_
    refine wp_go trivial (fun _ => trivial) hw fun empty w hw => ?_
    split
    · repeat refine wp_go trivial (fun _ => trivial) hw fun _ w hw => ?_
      exact wp_smTran hw
    · repeat refine wp_go trivial (fun _ => trivial) hw fun _ w hw => ?_
      exact wp_smTran hw
  · rename_i hnext
    -- neither reminded nor entered: the radio is on its way to sleep
    exact wp_await (by decide) ⟨hw.2, (hf.resolve_left hent).resolve_left hnext⟩

theorem handle_initing (hw : At .initing w) :
    wp (layer p) ct (stIniting p f) (Returned Idle Busy) w := by
  have hpre : ∀ o w, At .initing w → o.Quiet → ct.pre o w := fun o w hw ho =>
    pre_other (by cases o <;> trivial) (fun h => by cases h) w hw.2
  exact wp_stIniting (at_stable p .initing) (at_blind .initing) hpre hw
    (fun _ hw => wp_smTran hw) fun _ hw => wp_stay (by decide) (by decide) hw

theorem wp_onBtn (hw : At .lstning w) : wp (layer p) ct onBtn (Returned Idle Busy) w := by
  unfold onBtn
  repeat refine wp_go trivial (fun h => by cases h) hw fun _ w hw => ?_
  refine wp_go (o := .flagsSet evtTxRdy) rfl (fun h => by cases h) hw fun _ w hw => ?_
  exact wp_stay (by decide) (by decide) hw

theorem handle_lstning (hw : At .lstning w) :
    wp (layer p) ct (stLstning f) (Returned Idle Busy) w := by
  unfold stLstning
  split
  · repeat refine wp_go trivial (fun h => by cases h) hw fun _ w hw => ?_
    exact wp_stay (by decide) (by decide) hw
  split
  · refine wp_go trivial (fun h => by cases h) hw fun _ w hw => ?_
    exact wp_stay (by decide) (by decide) hw
  split
  · refine wp_go trivial (fun h => by cases h) hw fun _ w hw => ?_
    exact wp_smTran hw
  split
  · exact wp_onBtn hw
  split
  · exact wp_smTran hw
  · exact wp_stay (by decide) (by decide) hw

theorem handle_rxing (hw : At .rxing w) :
    wp (layer p) ct (stRxing f) (Returned Idle Busy) w := by
  unfold stRxing
  split
  · exact wp_stay (by decide) (by decide) hw
  split
  · exact wp_smTran hw
  · exact wp_stay (by decide) (by decide) hw

theorem handle_txing (hw : At .txing w) :
    wp (layer p) ct (stTxing f) (Returned Idle Busy) w := by
  unfold stTxing
  split
  · repeat refine wp_go trivial (fun h => by cases h) hw fun _ w hw => ?_
    exact wp_stay (by decide) (by decide) hw
  split
  · exact wp_smTran hw
  · exact wp_stay (by decide) (by decide) hw

end Handlers

theorem loopProof : LoopProof p ct NoNext Idle Busy where
  boot_stable := noNext_stable p
  idle_stable := idle_stable p
  busy_stable := busy_stable p
  boot_pre := fun _ _ _ => trivial
  idle_pre := fun _ h => h
  busy_pre := fun _ _ _ => ⟨fun _ => trivial, fun _ => trivial⟩
  noEnter := fun _ h => h.2
  fresh := fun w h => by
    rw [NoNext, h.flags]
    rfl
  boot := fun _ h => ⟨fun hs => (by cases hs), fun _ => h⟩
  wait := fun _ h _ => wait_busy h
  attach := fun _ _ h => h
  handle := fun st f w _ hst hb => by
    have hw : At st w := ⟨hb.1, hst⟩
    cases st with
    | initing => exact handle_initing hw
    | setting => exact handle_setting (hb.2 hst) hw
    | lstning => exact handle_lstning hw
    | rxing => exact handle_rxing hw
    | txing => exact handle_txing hw

/-- With the reminder among the flags of a wait in Setting, Setting is called with them and
transits to Txing or Lstning or posts the reminder again, before anything else shows. -/
def Consumes (tr : List Obs) : Prop :=
  ∀ before f a b after, tr = before ++ .woke f :: a :: b :: after →
    current before = some .setting → has f evtSmNext = true →
      a = .called .setting f ∧ (b = .posted evtSmNext ∨
        (b = .moved .txing ∨ b = .moved .lstning) ∧
          ∀ c rest, after = c :: rest → c = .returned .tran)

/-- Setting goes on: waiting it is reminded or awaits sleep mode, not waiting it can step,
and it consumes no reminder in vain. No other state waits with a reminder pending. -/
structure NeverStalls (p : Platform) (c : LayerConfig) : Prop where
  waiting : c.prog.nextOp = some .flagsWaitAny → c.world.stHandler = .setting →
    has c.world.flags evtSmNext = true ∨ Asleep c.world
  elsewhere : c.prog.nextOp = some .flagsWaitAny → c.world.stHandler ≠ .setting →
    has c.world.flags evtSmNext = false
  unblocked : c.world.stHandler = .setting → c.prog.nextOp ≠ some .flagsWaitAny →
    ∀ ch, ((layer p).step c (.act ch)).isSome
  recorded : ∃ t, (notedLayer p).Reach NotedStarted (fun _ _ => True) t ∧ t.erase = c
  consumed : ∀ t, (notedLayer p).Reach NotedStarted (fun _ _ => True) t → t.erase = c →
    Consumes t.world.trace

theorem consumes_of_orderly {tr : List Obs} (h : Orderly tr) : Consumes tr := by
  intro before f a b after htr hcur hnext
  obtain ⟨hwoke, _⟩ := h.neighbours before (.woke f) a (b :: after) htr
  obtain ⟨st, hst, rfl⟩ := hwoke.woken f rfl
  obtain rfl : st = .setting := Option.some.inj (hst.symm.trans hcur)
  have hcalled := h.neighbours (before ++ [.woke f]) (.called .setting f) b after
    (by simpa using htr)
  refine ⟨rfl, ?_⟩
  -- what is set is set after the initial handler, so the call returns with it
  have hreturns : ∀ st', b = .moved st' → ∀ c rest, after = c :: rest → c = .returned .tran := by
    rintro st' rfl c rest rfl
    have hmoved := h.neighbours (before ++ [.woke f, .called .setting f]) (.moved st') c rest
      (by simpa using htr)
    exact hmoved.1.moved st' rfl (by simp)
  rcases hcalled.2 f rfl hnext with hb | hb | hb
  · exact Or.inr ⟨Or.inl hb, hreturns .txing hb⟩
  · exact Or.inr ⟨Or.inr hb, hreturns .lstning hb⟩
  · exact Or.inl hb

/-- In every run Setting never stalls. -/
theorem setting_neverStalls {c : LayerConfig}
    (h : (layer p).Reach Started (fun _ _ => True) c) : NeverStalls p c := by
  have hg : (layer p).Reach Started contract.guard c :=
    reach_guard (fun _ _ => trivial) (fun _ _ _ _ => trivial) h
  have hwp := (loopProof p).reach_assuming hg
  have hpre : ∀ o, c.prog.nextOp = some o → ct.pre o c.world := fun _ ho => pre_of_wp hwp ho
  refine ⟨fun ho => (hpre _ ho).1, fun ho => (hpre _ ho).2, fun hst ho ch => ?_,
    (notedLayer_erase p).mp h, fun t ht _ => consumes_of_orderly (reach_trace ht).1⟩
  obtain ⟨w, q⟩ := c
  cases q with
  | ret l => rfl
  | call o k =>
    have htotal : Total o := by
      have ho' := hpre o rfl
      cases o with
      | flagsWaitAny => exact absurd rfl ho
      | _ => exact ho' hst
    obtain ⟨x, hx⟩ := Option.isSome_iff_exists.mp (total_exec p htotal ch w)
    have hx : (layer p).exec o ch w = some x := hx
    simp [System.step, hx]

/-- Reminded while the radio's ready signal arrives too. -/
theorem setting_neverStalls_ready : ∃ c : LayerConfig, NeverStalls .plain c ∧
    c.prog.nextOp = some .flagsWaitAny ∧ c.world.stHandler = .setting ∧
    has c.world.flags evtDioModeRdy = true ∧ has c.world.flags evtSmNext = true := by
  obtain ⟨c, hc, hP⟩ := reach_plain anyStep_guard
    (.env .threadStarted :: acts 29 ++ [.env (.dio .modeRdy)])
    (fun c => waitsIn c .setting && has c.world.flags evtDioModeRdy &&
      has c.world.flags evtSmNext) (by decide +kernel)
  simp only [Bool.and_eq_true] at hP
  obtain ⟨⟨hwaits, hready⟩, hnext⟩ := hP
  obtain ⟨hwait, hst⟩ := waitsIn_spec hwaits
  exact ⟨c, setting_neverStalls .plain hc, hwait, hst, hready, hnext⟩

end LayerSetting
