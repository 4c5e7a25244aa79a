import HeyMacMbed.LayerRadio
import HeyMacMbed.Link
import HeyMacMbed.Observed

/-!
# The layer drives the link

The commands the layer gives its radio, on record, are those of the link, in
every run: what the event flags were, when they came and what the queue held
changes the order of turns only, never a turn.
-/

open Bits Octets Fields Threads HeyMacLayer SX127xRadio Link

namespace LayerLink

/-- The commands among the layer's calls. -/
def cmds : Call → List (Cmd FrmRef)
  | .pinReset => [.reset]
  | .radio (.writeOpMode m) => [.mode m]
  | .radio .writeSleepStngs => [.sleepStngs]
  | .radio (.writeStngs forRx) => [.stngs forRx]
  | .radio (.writeLoraIrqMask d e) => [.irqMask d e]
  | .radio (.writeLoraIrqFlags c) => [.irqFlags c]
  | .radio (.writeFifoPtr o) => [.fifoPtr o]
  | .writeFifo frm => [.load frm]
  | _ => []

/-- The layer with its commands on record. -/
def linked (p : Platform) :
    System Call.Res (History World (Cmd FrmRef)) Event Choice Locals :=
  (layer p).observed cmds

abbrev LinkedConfig := Config Call.Res (History World (Cmd FrmRef)) Locals

/-- The phase of the link where the loop waits. -/
def Fits : St → Phase → Prop
  | .initing, φ => φ = .off
  | .setting, φ => φ.Rests
  | .lstning, φ | .rxing, φ => φ = .listening
  | .txing, φ => φ = .sending

/-- The phase when a handler is called, with the entry event or without. -/
def Due (enter : Bool) : St → Phase → Prop
  | .lstning, φ => φ = if enter then .tuned true else .listening
  | .txing, φ => φ = if enter then .tuned false else .sending
  | st, φ => Fits st φ

/-- LoRa mode is asked for and applied. -/
def LoraOn (r : SX127xRadio) : Prop :=
  r.rdoStngs .rdoLoraMode = 1 ∧ r.rdoStngsApplied .rdoLoraMode = 1

def Lora : St → SX127xRadio → Prop
  | .initing, _ => True
  | _, r => LoraOn r

/-- In the state `st` the radio is as `I` and the link as `M` tells. -/
structure At (st : St) (I : SX127xRadio → Prop) (M : Phase → Prop)
    (h : History World (Cmd FrmRef)) : Prop where
  stHandler : h.world.stHandler = st
  radio : I h.world.radio
  written : loads h.trace = h.world.written
  run : ∃ φ, Run h.trace φ ∧ M φ

/-- Asserted is that the record is the link's, with the frames written, and the phase
where the loop waits. -/
def contract : Contract Call (History World (Cmd FrmRef)) Event where
  envOk := fun _ _ => True
  opOk := fun _ h => NoEnter h.world
  pre := fun o h => loads h.trace = h.world.written ∧
    ∃ φ, Run h.trace φ ∧ (o = .flagsWaitAny → Fits h.world.stHandler φ)

/-- The assertion looks at the settings of LoRa mode alone. -/
def Looks (I : SX127xRadio → Prop) : Prop := ∀ r r' : SX127xRadio,
  r'.rdoStngs .rdoLoraMode = r.rdoStngs .rdoLoraMode →
    r'.rdoStngsApplied .rdoLoraMode = r.rdoStngsApplied .rdoLoraMode → I r → I r'

theorem looks_any : Looks fun _ => True := fun _ _ _ _ _ => trivial

theorem looks_applied : Looks fun r => r.rdoStngsApplied .rdoLoraMode = 1 :=
  fun _ _ _ ha h => ha.trans h

theorem looks_on : Looks LoraOn := fun _ _ hs ha h => ⟨hs.trans h.1, ha.trans h.2⟩

theorem looks_lora (st : St) : Looks (Lora st) := by
  cases st with
  | initing => exact looks_any
  | _ => exact looks_on

section Rules
variable {p : Platform} {st : St} {I J : SX127xRadio → Prop} {M N : Phase → Prop} {α : Type}
  {Q : α → History World (Cmd FrmRef) → Prop} {h : History World (Cmd FrmRef)}

theorem at_stable (hI : Looks I) : Stable (linked p) contract (At st I M) := by
  refine stable_observed fun w e w' tr hw he => ?_
  have ha := Event.around he
  exact ⟨ha.stHandler.trans hw.stHandler,
    hI _ _ (congrFun ha.stngs _) (congrFun ha.applied _) hw.radio,
    hw.written.trans ha.written.symm, hw.run⟩

theorem pre_at {o : Call} (ho : o ≠ .flagsWaitAny) (hw : At st I M h) : contract.pre o h := by
  obtain ⟨φ, hrun, _⟩ := hw.run
  exact ⟨hw.written, φ, hrun, fun e => absurd e ho⟩

/-- The frames on record are those written. -/
theorem exec_written {o : Call} {ch : Choice} {w w' : World} {r : o.Res}
    {tr : List (Cmd FrmRef)} (hw : loads tr = w.written)
    (hx : Call.exec p o ch w = some (r, w')) : loads (tr ++ cmds o) = w'.written := by
  rw [loads_append, hw]
  cases o with
  | flagsWaitAny =>
    obtain ⟨_, hx⟩ := Option.ite_none_right_eq_some.mp hx
    cases hx
    exact List.append_nil _
  | radio c =>
    obtain ⟨_, _, _, rfl⟩ := exec_radio hx
    cases c <;> exact List.append_nil _
  | txQueueFront =>
    obtain ⟨_, _, hx⟩ := Option.map_eq_some_iff.mp hx
    cases hx
    exact List.append_nil _
  | txQueuePopFront =>
    obtain ⟨_, _, hx⟩ := Option.map_eq_some_iff.mp hx
    cases hx
    exact List.append_nil _
  | txQueuePushBack d =>
    obtain ⟨frm, t⟩ := d
    cases frm <;> cases hx <;> exact List.append_nil _
  | strlen s =>
    obtain ⟨_, hx⟩ := Option.ite_none_right_eq_some.mp hx
    cases hx
    exact List.append_nil _
  | newFrame =>
    obtain ⟨_, hx⟩ := Option.ite_none_right_eq_some.mp hx
    cases hx
    exact List.append_nil _
  | writeFifo frm =>
    cases hx
    rfl
  | _ =>
    cases hx
    exact List.append_nil _

/-- A call that leaves the handler alone, by what it does to the radio and the link. -/
theorem wp_do {o : Call} {k : o.Res → LayerProg α} (hI : Looks I) (ho : o ≠ .flagsWaitAny)
    (hset : ∀ st, o ≠ .setStHandler st)
    (hJ : ∀ ch w r w', I w.radio → Call.exec p o ch w = some (r, w') → J w'.radio)
    (hN : ∀ tr φ, Run tr φ → M φ → ∃ ψ, Run (tr ++ cmds o) ψ ∧ N ψ) (hw : At st I M h)
    (hk : ∀ r h, At st J N h → wp (linked p) contract (k r) Q h) :
    wp (linked p) contract (perform o >>= k) Q h := by
  refine wp_perform (at_stable hI) hw (fun h hw => pre_at ho hw) fun h ch r h' hw _ hx => ?_
  obtain ⟨⟨r', w'⟩, hex, heq⟩ := Option.map_eq_some_iff.mp hx
  cases heq
  obtain ⟨φ, hrun, hM⟩ := hw.run
  have hst : w'.stHandler = h.world.stHandler := by
    have hf := (exec_frame hex).stHandler
    cases o with
    | setStHandler st => exact absurd rfl (hset st)
    | _ => exact hf
  exact hk _ ⟨w', h.trace ++ cmds o⟩ ⟨hst.trans hw.stHandler, hJ ch _ _ w' hw.radio hex,
    exec_written hw.written hex, hN _ φ hrun hM⟩

/-- Calls that neither change LoRa mode nor the handler. -/
def Lets : Call → Prop
  | .flagsWaitAny | .setStHandler _ | .resetRdoStngs | .noteLoraMode | .radio .initRadio
  | .radio (.set .rdoLoraMode _) | .radio (.writeStngs _) | .radio .writeSleepStngs => False
  | _ => True

theorem lets_lora {o : Call} {ch : Choice} {w w' : World} {r : o.Res} (ho : Lets o)
    (hx : Call.exec p o ch w = some (r, w')) :
    w'.radio.rdoStngs .rdoLoraMode = w.radio.rdoStngs .rdoLoraMode ∧
      w'.radio.rdoStngsApplied .rdoLoraMode = w.radio.rdoStngsApplied .rdoLoraMode := by
  cases o with
  | flagsWaitAny => cases ho
  | setStHandler st => cases ho
  | resetRdoStngs => cases ho
  | noteLoraMode => cases ho
  | pinReset =>
    cases hx
    exact ⟨rfl, rfl⟩
  | validateChip =>
    cases hx
    exact ⟨rfl, rfl⟩
  | writeFifo frm =>
    cases hx
    exact ⟨rfl, rfl⟩
  | radio c =>
    cases c with
    | initRadio => cases ho
    | writeStngs forRx => cases ho
    | writeSleepStngs => cases ho
    | set fld val =>
      have hne : Fld.rdoLoraMode ≠ fld := by
        rintro rfl
        exact ho
      cases hx
      exact ⟨set_other p.target (by decide) hne, congrFun (w.radio.set_applied _ _ _) _⟩
    | _ =>
      cases hx
      exact ⟨rfl, rfl⟩
  | _ =>
    rw [(exec_frame hx).radio id]
    exact ⟨rfl, rfl⟩

theorem wp_lets {o : Call} {k : o.Res → LayerProg α} (hI : Looks I) (ho : Lets o)
    (hN : ∀ tr φ, Run tr φ → M φ → ∃ ψ, Run (tr ++ cmds o) ψ ∧ N ψ) (hw : At st I M h)
    (hk : ∀ r h, At st I N h → wp (linked p) contract (k r) Q h) :
    wp (linked p) contract (perform o >>= k) Q h := by
  refine wp_do hI (by rintro rfl; exact ho) (by rintro st rfl; exact ho)
    (fun ch w r w' hI' hx => ?_) hN hw hk
  obtain ⟨hs, ha⟩ := lets_lora ho hx
  exact hI _ _ hs ha hI'

theorem keep {o : Call} (ho : cmds o = []) (tr : List (Cmd FrmRef)) (φ : Phase)
    (hrun : Run tr φ) (hM : M φ) : ∃ ψ, Run (tr ++ cmds o) ψ ∧ M ψ := by
  rw [ho, List.append_nil]
  exact ⟨φ, hrun, hM⟩

/-- A call that gives no command. -/
theorem wp_silent {o : Call} {k : o.Res → LayerProg α} (hI : Looks I)
    (ho : Lets o ∧ cmds o = []) (hw : At st I M h)
    (hk : ∀ r h, At st I M h → wp (linked p) contract (k r) Q h) :
    wp (linked p) contract (perform o >>= k) Q h :=
  wp_lets hI ho.1 (keep ho.2) hw hk

/-- A command the link takes. -/
theorem wp_cmd {o : Call} {k : o.Res → LayerProg α} {a : Cmd FrmRef} (hI : Looks I)
    (ho : Lets o ∧ cmds o = [a]) (hstep : ∀ φ, M φ → ∃ ψ, Step φ a ψ ∧ N ψ) (hw : At st I M h)
    (hk : ∀ r h, At st I N h → wp (linked p) contract (k r) Q h) :
    wp (linked p) contract (perform o >>= k) Q h := by
  refine wp_lets hI ho.1 (fun tr φ hrun hM => ?_) hw hk
  obtain ⟨ψ, hs, hN⟩ := hstep φ hM
  rw [ho.2]
  exact ⟨ψ, .snoc hrun hs, hN⟩

end Rules

/-! The handlers. -/

/-- The current state has its events to deal with, the entry event or others. -/
def Busy (enter : Bool) (h : History World (Cmd FrmRef)) : Prop :=
  ∃ st, At st (Lora st) (Due enter st) h

/-- A handler has returned `r`. -/
def Returned (r : SmRet) (h : History World (Cmd FrmRef)) : Prop := Busy (r == .tran) h

section Handlers
variable {p : Platform} {st : St} {I : SX127xRadio → Prop} {M : Phase → Prop} {f : BitVec 32}
  {h : History World (Cmd FrmRef)}

theorem busy_stable (enter : Bool) : Stable (linked p) contract (Busy enter) := by
  rintro h h' ⟨st, hw⟩ hr
  exact ⟨st, at_stable (looks_lora st) _ _ hw hr⟩

theorem wp_stay {r : SmRet} (hr : (r == .tran) = false) (hw : At st (Lora st) (Due false st) h) :
    wp (linked p) contract (pure r) Returned h := by
  refine wp_pure (at_stable (looks_lora st)) hw fun h hw => ?_
  rw [Returned, hr]
  exact ⟨st, hw⟩

theorem wp_smTran {next : St} (hI : Looks I) (hlora : ∀ r, I r → Lora next r)
    (hM : ∀ φ, M φ → Due true next φ) (hw : At st I M h) :
    wp (linked p) contract (smTran next) Returned h := by
  refine wp_perform (at_stable hI) hw (fun h hw => pre_at (by simp) hw)
    fun h ch r h' hw _ hx => ?_
  cases hx
  obtain ⟨φ, hrun, hφ⟩ := hw.run
  have hw : At next (Lora next) (Due true next)
      (⟨{ h.world with stHandler := next }, h.trace ++ []⟩ : History World (Cmd FrmRef)) := by
    rw [List.append_nil]
    exact ⟨rfl, hlora _ hw.radio, hw.written, φ, hrun, hM φ hφ⟩
  exact wp_pure (at_stable (looks_lora next)) hw fun h hw => ⟨next, hw⟩

/-- A `set` of another setting. -/
theorem wp_set {α : Type} {Q : α → History World (Cmd FrmRef) → Prop} {fld : Fld}
    {val : BitVec 32} {k : Unit → LayerProg α} (hf : fld ≠ .rdoLoraMode) (hI : Looks I)
    (hw : At st I M h) (hk : ∀ h, At st I M h → wp (linked p) contract (k ()) Q h) :
    wp (linked p) contract (perform (.radio (.set fld val)) >>= k) Q h :=
  wp_silent hI ⟨by cases fld <;> trivial, rfl⟩ hw
    fun _ h hw => hk h hw

/-- The radio's initialisation takes the link from power-up to its first rest. -/
theorem wp_initRadio (hw : At .initing (fun _ => True) (· = .off) h) :
    wp (linked p) contract HeyMacLayer.initRadio (fun _ => At .initing
      (fun r => r.rdoStngsApplied .rdoLoraMode = 1) (· = .ready)) h := by
  unfold HeyMacLayer.initRadio
  refine wp_cmd (N := (· = .fresh)) looks_any ⟨trivial, rfl⟩
    (fun φ hφ => ⟨_, hφ ▸ .reset, rfl⟩) hw fun _ h hw => ?_
  refine wp_do (J := fun _ => True) (N := (· = .fresh)) looks_any (by simp) (by simp)
    (fun _ _ _ _ _ _ => trivial) (keep rfl) hw fun _ h hw => ?_
  refine wp_silent looks_any ⟨trivial, rfl⟩ hw fun _ h hw => ?_
  refine wp_cmd (N := (· = .asleep)) looks_any ⟨trivial, rfl⟩
    (fun φ hφ => ⟨_, hφ ▸ .sleep, rfl⟩) hw fun _ h hw => ?_
  refine wp_do (J := fun _ => True) (N := (· = .asleep)) looks_any (by simp) (by simp)
    (fun _ _ _ _ _ _ => trivial) (keep rfl) hw fun _ h hw => ?_
  refine wp_do (J := fun _ => True) (N := (· = .loraOn)) looks_any (by simp) (by simp)
    (fun _ _ _ _ _ _ => trivial) (fun tr φ hrun hφ => ⟨_, .snoc hrun (hφ ▸ .lora), rfl⟩) hw
    fun _ h hw => ?_
  refine wp_cmd (N := (· = .ready)) looks_any ⟨trivial, rfl⟩
    (fun φ hφ => ⟨_, hφ ▸ .wake, rfl⟩) hw fun _ h hw => ?_
  refine wp_do (k := pure) (J := fun r => r.rdoStngsApplied .rdoLoraMode = 1) (N := (· = .ready))
    looks_any (by simp) (by simp) (fun ch w r w' _ hx => ?_) (keep rfl) hw fun _ h hw => ?_
  · cases hx
    exact Function.update_self .rdoLoraMode 1 w.radio.rdoStngsApplied
  · exact wp_pure (at_stable looks_applied) hw fun _ hw => hw

theorem handle_initing (hw : At .initing (Lora .initing) (Due (has f evtSmEnter) .initing) h) :
    wp (linked p) contract (stIniting p f) Returned h := by
  unfold stIniting
  split
  · refine wp_silent looks_any ⟨trivial, rfl⟩ hw fun _ h hw => ?_
    refine wp_bind (wp_mono (fun _ h hw => ?_) (wp_initRadio hw))
    -- LoRa mode is asked for once more
    refine wp_do (J := LoraOn) looks_applied (by simp) (by simp) (fun ch w r w' happ hx => ?_)
      (keep rfl) hw fun _ h hw => ?_
    · cases hx
      obtain ⟨v, hv, hset⟩ : ∃ v : Octet, v.toNat = (1#32).toNat ∧
          w.radio.set p.target .rdoLoraMode 1 = w.radio.putStng .rdoLoraMode v :=
        set_single p.target (by decide) (by decide)
      have hv : v = 1 := BitVec.eq_of_toNat_eq hv
      have hon : LoraOn (w.radio.set p.target .rdoLoraMode 1) := by
        rw [hset]
        refine ⟨?_, happ⟩
        show Function.update w.radio.rdoStngs .rdoLoraMode v .rdoLoraMode = 1
        rw [Function.update_self, hv]
      exact hon
    · repeat refine wp_set (by decide) looks_on hw fun h hw => ?_
      exact wp_smTran looks_on (fun _ hr => hr) (fun φ hφ => by subst hφ; trivial) hw
  · exact wp_stay (by decide) hw

/-- With LoRa mode applied the settings require no sleep. -/
theorem wp_requireSleep {α : Type} {Q : α → History World (Cmd FrmRef) → Prop}
    {k : Bool → LayerProg α} (hw : At st LoraOn M h)
    (hk : ∀ h, At st LoraOn M h → wp (linked p) contract (k false) Q h) :
    wp (linked p) contract (perform .stngsRequireSleep >>= k) Q h := by
  refine wp_perform (at_stable looks_on) hw (fun h hw => pre_at (by simp) hw)
    fun h ch r h' hw _ hx => ?_
  cases hx
  have hno : h.world.radio.stngsRequireSleep = false := by
    rw [stngsRequireSleep, hw.radio.1, hw.radio.2]
    rfl
  have hsame : (⟨h.world, h.trace ++ []⟩ : History World (Cmd FrmRef)) = h := by
    rw [List.append_nil]
  show wp (linked p) contract (k h.world.radio.stngsRequireSleep) Q ⟨h.world, h.trace ++ []⟩
  rw [hno, hsame]
  exact hk h hw

/-- Writing settings keeps LoRa mode. -/
theorem wp_writeStngs {α : Type} {Q : α → History World (Cmd FrmRef) → Prop} {forRx : Bool}
    {k : Unit → LayerProg α} (hw : At st LoraOn (· = .standby) h)
    (hk : ∀ h, At st LoraOn (· = .tuned forRx) h → wp (linked p) contract (k ()) Q h) :
    wp (linked p) contract (perform (.radio (.writeStngs forRx)) >>= k) Q h := by
  refine wp_do (J := LoraOn) (N := (· = .tuned forRx)) looks_on (by simp) (by simp)
    (fun ch w r w' hon hx => ?_) (fun tr φ hrun hφ => ⟨_, .snoc hrun (hφ ▸ .tune forRx), rfl⟩) hw
    fun _ h hw => hk h hw
  obtain ⟨rd, rfl, hrd⟩ := LayerRadio.exec_writeStngs ch hx
  have hstngs : rd.rdoStngs = w.radio.rdoStngs := by rw [hrd, writeStngs_rdoStngs]
  have happlied : rd.rdoStngsApplied = w.radio.rdoStngs := by rw [hrd, writeStngs_applied]
  exact ⟨(congrFun hstngs _).trans hon.1, (congrFun happlied _).trans hon.1⟩

theorem handle_setting (hw : At .setting LoraOn Phase.Rests h) :
    wp (linked p) contract (stSetting f) Returned h := by
  unfold stSetting
  split
  · refine wp_requireSleep hw fun h hw => ?_
    refine wp_silent looks_on ⟨trivial, rfl⟩ hw fun _ h hw => ?_
    exact wp_stay rfl hw
  split
  · refine wp_do (J := LoraOn) (N := Phase.Rests) looks_on (by simp) (by simp)
      (fun ch w r w' hon hx => ?_) (fun tr φ hrun hφ => ⟨φ, .snoc hrun (.again hφ), hφ⟩) hw
      fun _ h hw => ?_
    · cases hx
      have hsame : LoraOn w.radio.writeSleepStngs := by
        rw [writeSleepStngs_idle (hon.1.trans hon.2.symm)]
        exact hon
      exact hsame
    · refine wp_silent looks_on ⟨trivial, rfl⟩ hw fun _ h hw => ?_
      exact wp_stay rfl hw
  split
  · refine wp_cmd (N := (· = .standby)) looks_on ⟨trivial, rfl⟩
      (fun φ hφ => ⟨_, .stand hφ, rfl⟩) hw fun _ h hw => ?_
    refine wp_silent looks_on ⟨trivial, rfl⟩ hw fun empty h hw => ?_
    split
    · refine wp_set (by decide) looks_on hw fun h hw => ?_
      refine wp_writeStngs hw fun h hw => ?_
      exact wp_smTran looks_on (fun _ hr => hr) (fun φ hφ => hφ) hw
    · repeat refine wp_set (by decide) looks_on hw fun h hw => ?_
      refine wp_writeStngs hw fun h hw => ?_
      exact wp_smTran looks_on (fun _ hr => hr) (fun φ hφ => hφ) hw
  · exact wp_stay rfl hw

theorem handle_lstning (hw : At .lstning LoraOn (Due (has f evtSmEnter) .lstning) h) :
    wp (linked p) contract (stLstning f) Returned h := by
  unfold stLstning onBtn enqTxFrame
  split
  · rename_i hent
    have hw : At .lstning LoraOn (· = .tuned true) h := by
      rw [hent] at hw
      exact hw
    refine wp_cmd (N := (· = .masked true)) looks_on ⟨trivial, rfl⟩
      (fun φ hφ => ⟨_, hφ ▸ .mask true, rfl⟩) hw fun _ h hw => ?_
    refine wp_cmd (N := (· = .cleared true)) looks_on ⟨trivial, rfl⟩
      (fun φ hφ => ⟨_, hφ ▸ .clear true, rfl⟩) hw fun _ h hw => ?_
    refine wp_cmd (N := (· = .pointed true)) looks_on ⟨trivial, rfl⟩
      (fun φ hφ => ⟨_, hφ ▸ .point true, rfl⟩) hw fun _ h hw => ?_
    refine wp_cmd (N := (· = .listening)) looks_on ⟨trivial, rfl⟩
      (fun φ hφ => ⟨_, hφ ▸ .listen, rfl⟩) hw fun _ h hw => ?_
    exact wp_stay rfl hw
  rename_i hent
  have hw : At .lstning LoraOn (· = .listening) h := by
    rw [Bool.eq_false_iff.mpr hent] at hw
    exact hw
  split
  · refine wp_silent looks_on ⟨trivial, rfl⟩ hw fun _ h hw => ?_
    exact wp_stay rfl hw
  split
  · refine wp_cmd (N := (· = .ready)) looks_on ⟨trivial, rfl⟩
      (fun φ hφ => ⟨_, hφ ▸ .leave, rfl⟩) hw fun _ h hw => ?_
    exact wp_smTran looks_on (fun _ hr => hr) (fun φ hφ => by subst hφ; trivial) hw
  split
  · repeat refine wp_silent looks_on ⟨trivial, rfl⟩ hw fun _ h hw => ?_
    exact wp_stay rfl hw
  split
  · exact wp_smTran looks_on (fun _ hr => hr) (fun φ hφ => hφ) hw
  · exact wp_stay rfl hw

theorem handle_rxing (hw : At .rxing LoraOn (· = .listening) h) :
    wp (linked p) contract (stRxing f) Returned h := by
  unfold stRxing
  split
  · exact wp_stay rfl hw
  split
  · exact wp_smTran looks_on (fun _ hr => hr) (fun φ hφ => by subst hφ; trivial) hw
  · exact wp_stay rfl hw

theorem handle_txing (hw : At .txing LoraOn (Due (has f evtSmEnter) .txing) h) :
    wp (linked p) contract (stTxing f) Returned h := by
  unfold stTxing
  split
  · rename_i hent
    have hw : At .txing LoraOn (· = .tuned false) h := by
      rw [hent] at hw
      exact hw
    refine wp_cmd (N := (· = .masked false)) looks_on ⟨trivial, rfl⟩
      (fun φ hφ => ⟨_, hφ ▸ .mask false, rfl⟩) hw fun _ h hw => ?_
    refine wp_cmd (N := (· = .cleared false)) looks_on ⟨trivial, rfl⟩
      (fun φ hφ => ⟨_, hφ ▸ .clear false, rfl⟩) hw fun _ h hw => ?_
    refine wp_cmd (N := (· = .pointed false)) looks_on ⟨trivial, rfl⟩
      (fun φ hφ => ⟨_, hφ ▸ .point false, rfl⟩) hw fun _ h hw => ?_
    refine wp_silent looks_on ⟨trivial, rfl⟩ hw fun txData h hw => ?_
    refine wp_silent looks_on ⟨trivial, rfl⟩ hw fun _ h hw => ?_
    refine wp_cmd (N := (· = .loaded)) looks_on ⟨trivial, rfl⟩
      (fun φ hφ => ⟨_, hφ ▸ .load txData.frm, rfl⟩) hw fun _ h hw => ?_
    refine wp_cmd (N := (· = .sending)) looks_on ⟨trivial, rfl⟩
      (fun φ hφ => ⟨_, hφ ▸ .send, rfl⟩) hw fun _ h hw => ?_
    exact wp_stay rfl hw
  rename_i hent
  have hw : At .txing LoraOn (· = .sending) h := by
    rw [Bool.eq_false_iff.mpr hent] at hw
    exact hw
  split
  · exact wp_smTran looks_on (fun _ hr => hr) (fun φ hφ => by subst hφ; trivial) hw
  · exact wp_stay rfl hw

theorem handle (hw : At st (Lora st) (Due (has f evtSmEnter) st) h) :
    wp (linked p) contract (handler p st f) Returned h := by
  cases st with
  | initing => exact handle_initing hw
  | setting => exact handle_setting hw
  | lstning => exact handle_lstning hw
  | rxing => exact handle_rxing hw
  | txing => exact handle_txing hw

end Handlers

/-! The loop. -/

section Loop
variable {p : Platform} {l : Locals} {h : History World (Cmd FrmRef)}

theorem due_fits {st : St} {φ : Phase} (h : Due false st φ) : Fits st φ := by
  cases st <;> exact h

theorem Busy.pre {enter : Bool} {o : Call} (ho : o ≠ .flagsWaitAny) (hb : Busy enter h) :
    contract.pre o h := by
  obtain ⟨st, hw⟩ := hb
  exact pre_at ho hw

theorem Busy.wait (hb : Busy false h) : contract.pre .flagsWaitAny h := by
  obtain ⟨st, hw⟩ := hb
  obtain ⟨φ, hrun, hdue⟩ := hw.run
  exact ⟨hw.written, φ, hrun, fun _ => hw.stHandler ▸ due_fits hdue⟩

/-- What holds between two rounds. -/
structure LoopInv (l : Locals) (h : History World (Cmd FrmRef)) : Prop where
  tran : l.retval = .tran → l.evtFlags = 0 ∧ l.evtFlagEnter = evtSmEnter
  wait : l.retval ≠ .tran → l.evtFlagEnter = 0
  busy : Returned l.retval h

theorem wp_nextFlags (hl : LoopInv l h) :
    wp (linked p) contract (nextFlags l)
      (fun f h => Busy (has (f ||| l.evtFlagEnter) evtSmEnter) h) h := by
  have hb := hl.busy
  unfold nextFlags
  by_cases ht : l.retval = .tran
  · obtain ⟨hf, he⟩ := hl.tran ht
    rw [if_neg (by simp [ht])]
    rw [Returned, ht] at hb
    refine wp_pure (busy_stable true) hb fun h hb => ?_
    rw [hf, he]
    exact hb
  · rw [if_pos ht]
    rw [Returned, beq_eq_false_iff_ne.mpr ht] at hb
    refine wp_last (busy_stable false) hb (fun _ hb => hb.wait) fun h ch r h' hb hok hx => ?_
    obtain ⟨⟨r', w'⟩, hex, heq⟩ := Option.map_eq_some_iff.mp hx
    obtain ⟨_, hex⟩ := Option.ite_none_right_eq_some.mp hex
    cases hex
    cases heq
    have hflags : has (h.world.flags ||| 0) evtSmEnter = false := by
      have hor : h.world.flags ||| 0 = h.world.flags := BitVec.or_zero
      rw [hor]
      exact hok
    have hb : Busy false (⟨{ h.world with flags := h.world.flags &&& ~~~evtAll },
        h.trace ++ []⟩ : History World (Cmd FrmRef)) := by
      rw [List.append_nil]
      obtain ⟨st, hw⟩ := hb
      exact ⟨st, hw.stHandler, hw.radio, hw.written, hw.run⟩
    refine wp_pure (busy_stable false) hb fun h hb => ?_
    rw [hl.wait ht, hflags]
    exact hb

theorem wp_onInit {f : BitVec 32} {enter : Bool} (hb : Busy enter h) :
    wp (linked p) contract (onInit f) (fun _ h => Busy enter h) h := by
  have hskip : wp (linked p) contract (pure () : LayerProg Unit) (fun _ h => Busy enter h) h :=
    wp_pure (busy_stable enter) hb fun _ hb => hb
  unfold onInit
  split
  · split
    · obtain ⟨st, hw⟩ := hb
      refine wp_silent (k := pure) (looks_lora st) ⟨trivial, rfl⟩ hw fun _ h hw => ?_
      exact wp_pure (at_stable (looks_lora st)) hw fun _ hw => ⟨st, hw⟩
    · exact hskip
  · exact hskip

theorem wp_mainLoop (hl : LoopInv l h) :
    wp (linked p) contract (mainLoop p l) LoopInv h := by
  refine wp_bind (wp_mono (fun f h hb => ?_) (wp_nextFlags hl))
  refine wp_bind (wp_mono (fun _ h hb => ?_) (wp_onInit hb))
  obtain ⟨st, hw⟩ := hb
  refine wp_perform (at_stable (looks_lora st)) hw (fun _ hw => pre_at (by simp) hw)
    fun h ch r h' hw _ hx => ?_
  cases hx
  have hw' : At st (Lora st) (Due (has (f ||| l.evtFlagEnter) evtSmEnter) st)
      (⟨h.world, h.trace ++ []⟩ : History World (Cmd FrmRef)) := by
    rw [List.append_nil]
    exact hw
  show wp (linked p) contract (handler p h.world.stHandler _ >>= _) _ _
  rw [hw.stHandler]
  refine wp_bind (wp_mono (fun r h hb => ?_) (handle hw'))
  refine wp_pure (busy_stable _) hb fun h hb => ?_
  exact ⟨fun hr => ⟨rfl, if_pos hr⟩, fun hr => if_neg hr, hb⟩

/-- What holds before the first handler is set. -/
def Boot (h : History World (Cmd FrmRef)) : Prop := h.trace = [] ∧ h.world.written = []

theorem boot_stable : Stable (linked p) contract Boot :=
  stable_observed fun _ _ _ _ hb he => ⟨hb.1, (Event.around he).written.trans hb.2⟩

theorem Boot.pre {o : Call} (ho : o ≠ .flagsWaitAny) (hb : Boot h) : contract.pre o h := by
  refine ⟨?_, .off, ?_, fun e => absurd e ho⟩
  · rw [hb.1, hb.2]
    rfl
  · rw [hb.1]
    exact .nil

theorem reach_loop {c : LinkedConfig}
    (hc : (linked p).Reach (Unrecorded Started) (fun _ _ => True) c) :
    wp (linked p) contract c.prog LoopInv c.world := by
  have hg : (linked p).Reach (Unrecorded Started) contract.guard c :=
    reach_guard (fun _ _ => trivial)
      (fun c hc _ _ => reach_noEnter p (reach_observed_iff.mpr ⟨c, hc, rfl⟩)) hc
  refine reach_wp ?_ (fun _ _ hl => wp_mainLoop hl) hg
  rintro ⟨h, q⟩ ⟨⟨hw, uninit, hq⟩, htr⟩
  cases hq
  refine wp_perform boot_stable ⟨htr, hw.written⟩ (fun _ hb => hb.pre (by simp))
    fun h ch r h' hb _ hx => ?_
  cases hx
  have hw : At .initing (Lora .initing) (Due false .initing)
      (⟨{ h.world with stHandler := .initing }, h.trace ++ []⟩ :
        History World (Cmd FrmRef)) := by
    rw [List.append_nil, hb.1]
    exact ⟨rfl, trivial, hb.2.symm, .off, .nil, rfl⟩
  refine wp_pure (at_stable looks_any) hw fun h hw => ?_
  exact ⟨fun hr => (by cases hr), fun _ => rfl, ⟨.initing, hw⟩⟩

/-- The commands on record are the link's and so come in turns, their loads are the frames
written, and where the loop waits the link is in the phase of the state. -/
structure Driven (c : LinkedConfig) : Prop where
  written : loads c.world.trace = c.world.world.written
  run : ∃ φ, Run c.world.trace φ ∧
    (c.prog.nextOp = some .flagsWaitAny → Fits c.world.world.stHandler φ)
  turns : InTurns c.world.trace

theorem driven {c : LinkedConfig} {φ : Phase}
    (hwritten : loads c.world.trace = c.world.world.written) (hrun : Run c.world.trace φ)
    (hfits : c.prog.nextOp = some .flagsWaitAny → Fits c.world.world.stHandler φ) : Driven c :=
  ⟨hwritten, ⟨φ, hrun, hfits⟩, hrun.inTurns⟩

theorem reach_driven {c : LinkedConfig}
    (hc : (linked p).Reach (Unrecorded Started) (fun _ _ => True) c) : Driven c := by
  have hwp := reach_loop hc
  obtain ⟨h, q⟩ := c
  cases q with
  | ret l =>
    obtain ⟨st, hw⟩ := (wp_post hwp).busy
    obtain ⟨φ, hrun, _⟩ := hw.run
    exact driven hw.written hrun fun hn => by cases hn
  | call o k =>
    obtain ⟨hwritten, φ, hrun, hfits⟩ := wp_pre hwp
    exact driven hwritten hrun fun hn => hfits (Option.some.inj hn)

/-- Every run of the layer has its commands on record, and they drive the link. -/
theorem layer_driven (p : Platform) {c : LayerConfig}
    (h : (layer p).Reach Started (fun _ _ => True) c) :
    (∃ t, (linked p).Reach (Unrecorded Started) (fun _ _ => True) t ∧ t.forget = c) ∧
      ∀ t, (linked p).Reach (Unrecorded Started) (fun _ _ => True) t → t.forget = c → Driven t :=
  ⟨reach_observed_iff.mp h, fun _ ht _ => reach_driven ht⟩

/-- The layer has started and sent a frame that was queued meanwhile. -/
theorem layer_driven_tx : ∃ t : LinkedConfig,
    t.world.trace = [.reset, .mode .sleep, .sleepStngs, .mode .stby] ++ turn false ++
      [.load (.ext 0), .mode .tx] ∧ Driven t := by
  have hrun : ((linked .plain).run (fun _ _ => true) ⟨⟨.plain, []⟩, mainStart 0⟩
      ([.env .threadStarted, .env (.pushBack 0 0)] ++ acts 45)).any (fun t =>
        t.world.trace == [.reset, .mode .sleep, .sleepStngs, .mode .stby] ++ turn false ++
          [.load (.ext 0), .mode .tx]) = true := by decide +kernel
  obtain ⟨t, hr, htr⟩ := (Option.any_eq_true _ _).mp hrun
  have hstart : Unrecorded Started (⟨⟨World.plain, []⟩, mainStart 0⟩ : LinkedConfig) :=
    ⟨⟨World.plain_fresh, 0, rfl⟩, rfl⟩
  have ht : (linked .plain).Reach (Unrecorded Started) (fun _ _ => True) t :=
    System.reach_run (fun _ _ _ => trivial) (.start hstart) hr
  have hdriven := (layer_driven .plain (reach_observed_iff.mpr ⟨t, ht, rfl⟩)).2 t ht rfl
  exact ⟨t, eq_of_beq htr, hdriven⟩

end Loop

end LayerLink
