import HeyMacMbed.Histories
import HeyMacMbed.LayerLoop

/-!
# What the event loop does in what order

`_main` with notes of which handler it calls with which flags and of what comes
back. The history also shows the waits, the handlers set and the flags the
thread posts itself; every two neighbours in it are as the loop's three locals
are meant to make them.
-/

open Bits Threads HeyMacLayer

/-- A wait returns flags, `SM_TRAN` sets the handler, the thread posts a flag, a handler
is called and returns. -/
inductive Obs where
  | woke (f : BitVec 32)
  | moved (st : St)
  | posted (f : BitVec 32)
  | called (st : St) (f : BitVec 32)
  | returned (r : SmRet)
  deriving DecidableEq

/-- What a call leaves in the history. -/
def Call.obs : (o : Call) → o.Res → List Obs
  | .flagsWaitAny, f => [.woke f]
  | .setStHandler st, _ => [.moved st]
  | .flagsSet f, _ => [.posted f]
  | _, _ => []

abbrev NotedLayerProg (α : Type) := NotedProg Call.Res Obs α

namespace HeyMacLayer

/-- One round of `_main`'s loop, with notes around the handler's call. -/
def notedLoop (p : Platform) (l : Locals) : NotedLayerProg Locals := do
  let evtFlags ← (nextFlags l).lift
  (onInit evtFlags).lift
  let stHandler ← (perform .getStHandler).lift
  Prog.note (.called stHandler (evtFlags ||| l.evtFlagEnter))
  let retval ← (handler p stHandler (evtFlags ||| l.evtFlagEnter)).lift
  Prog.note (.returned retval)
  pure ⟨retval, 0, if retval = .tran then evtSmEnter else 0⟩

theorem erase_notedLoop (p : Platform) (l : Locals) : (notedLoop p l).erase = mainLoop p l := by
  simp only [notedLoop, Prog.erase_bind, Prog.erase_lift]
  rfl

end HeyMacLayer

def notedLayer (p : Platform) :
    System (NotedRes Call.Res Obs) (History World Obs) Event Choice Locals :=
  (layer p).noted Call.obs (notedLoop p)

abbrev NotedConfig := Config (NotedRes Call.Res Obs) (History World Obs) Locals

def NotedStarted (c : NotedConfig) : Prop :=
  c.world.world.Fresh ∧ c.world.trace = [] ∧ ∃ uninit, c.prog = (mainStart uninit).lift

/-- With its notes taken out this is the layer. -/
theorem notedLayer_erase (p : Platform) {c : LayerConfig} :
    (layer p).Reach Started (fun _ _ => True) c ↔
      ∃ t, (notedLayer p).Reach NotedStarted (fun _ _ => True) t ∧ t.erase = c := by
  refine reach_erase_iff (erase_notedLoop p) ?_ ?_
  · rintro ⟨x, q⟩ ⟨hw, _, uninit, hq⟩
    cases hq
    exact ⟨hw, uninit, rfl⟩
  · rintro ⟨w, q⟩ ⟨hw, uninit, hq⟩
    cases hq
    exact ⟨⟨⟨w, []⟩, (mainStart uninit).lift⟩, ⟨hw, rfl, uninit, rfl⟩, rfl⟩

/-- A run on the plain platform, with its history. -/
theorem reach_noted (ls : List (Label Event Choice)) (P : NotedConfig → Bool)
    (h : ((notedLayer .plain).run (fun _ _ => true) ⟨⟨.plain, []⟩, (mainStart 0).lift⟩ ls).any P =
      true) :
    ∃ t, (notedLayer .plain).Reach NotedStarted (fun _ _ => True) t ∧ P t = true :=
  System.reach_of_any (fun _ _ _ => trivial) ⟨World.plain_fresh, rfl, 0, rfl⟩ ls P h

/-- The handler set last. -/
def current (tr : List Obs) : Option St :=
  tr.foldl (fun st e => match e with | .moved st' => some st' | _ => st) none

theorem current_moved (tr : List Obs) (st : St) : current (tr ++ [.moved st]) = some st := by
  simp [current]

theorem current_other (tr : List Obs) {e : Obs} (he : ∀ st, e ≠ .moved st) :
    current (tr ++ [e]) = current tr := by
  cases e with
  | moved st => exact absurd rfl (he st)
  | _ => simp [current]

/-- After `SM_RET_TRAN` the handler just set is called with its entry and nothing else;
the flags of a wait go to the current handler; no other call is made, and none of these
has the entry event; `SM_RET_TRAN` comes right after a handler was set, and a handler set
after the initial one comes right before it. -/
structure Follows (before : List Obs) (a b : Obs) : Prop where
  enter : a = .returned .tran → ∃ before' st, before = before' ++ [.moved st] ∧
    b = .called st evtSmEnter
  woken : ∀ f, a = .woke f → ∃ st, current before = some st ∧ b = .called st f
  called : ∀ st f, b = .called st f →
    a = .returned .tran ∨ a = .woke f ∧ has f evtSmEnter = false
  tran : b = .returned .tran → ∃ st, a = .moved st
  moved : ∀ st, a = .moved st → before ≠ [] → b = .returned .tran

/-- Setting, called with `EVT_SM_NEXT`, leaves for Txing or Lstning or posts it again. -/
def KeepsNext (a b : Obs) : Prop :=
  ∀ f, a = .called .setting f → has f evtSmNext = true →
    b = .moved .txing ∨ b = .moved .lstning ∨ b = .posted evtSmNext

/-- What every history is like. -/
structure Orderly (tr : List Obs) : Prop where
  first : ∀ a after, tr = a :: after → a = .moved .initing
  neighbours : Neighbours (fun before a b => Follows before a b ∧ KeepsNext a b) tr

theorem Orderly.snoc {before : List Obs} {a b : Obs} (h : Orderly (before ++ [a]))
    (hf : Follows before a b) (hk : KeepsNext a b) : Orderly (before ++ [a] ++ [b]) := by
  refine ⟨fun e after heq => ?_, h.neighbours.snoc ⟨hf, hk⟩⟩
  cases before with
  | nil =>
    cases heq
    exact h.first a [] rfl
  | cons e' rest =>
    cases heq
    exact h.first e (rest ++ [a]) rfl

theorem keepsNext_of_not_called {a b : Obs} (ha : ∀ f, a ≠ .called .setting f) :
    KeepsNext a b := fun f hf _ => absurd hf (ha f)

/-- Within a handler's call. -/
def Obs.Inside : Obs → Prop
  | .posted _ | .called _ _ => True
  | _ => False

/-- Where the loop is about to wait. -/
def Obs.Rests : Obs → Prop
  | .moved _ => True
  | .returned r => r ≠ .tran
  | _ => False

/-- Where a handler is due to be called. -/
def Obs.Due : Obs → Prop
  | .woke _ => True
  | .returned r => r = .tran
  | _ => False

theorem follows_inside {before : List Obs} {a b : Obs} (ha : a.Inside)
    (hb : ∀ st f, b ≠ .called st f) (ht : b ≠ .returned .tran) : Follows before a b where
  enter := by
    rintro rfl
    cases ha
  woken := by
    rintro f rfl
    cases ha
  called := fun st f h => absurd h (hb st f)
  tran := fun h => absurd h ht
  moved := by
    rintro st rfl
    cases ha

theorem follows_moved (before : List Obs) (st : St) :
    Follows before (.moved st) (.returned .tran) where
  enter := fun h => by cases h
  woken := fun _ h => by cases h
  called := fun _ _ h => by cases h
  tran := fun _ => ⟨st, rfl⟩
  moved := fun _ _ _ => rfl

theorem follows_woke {before : List Obs} {a : Obs} {f : BitVec 32} (ha : a.Rests)
    (hfirst : ∀ st, a = .moved st → before = []) : Follows before a (.woke f) where
  enter := by
    rintro rfl
    exact absurd rfl ha
  woken := by
    rintro g rfl
    cases ha
  called := fun _ _ h => by cases h
  tran := fun h => by cases h
  moved := fun st hst hne => absurd (hfirst st hst) hne

section Rules
variable {p : Platform}

/-- The thread need not wait for the call. -/
def Prompt : Noted Call Obs → Prop
  | .op .attachTicker | .op .getStHandler | .note _ => True
  | _ => False

/-- Nothing is assumed but that the entry event is not pending; asserted is an orderly
history, and that a call that is due is not waited for. -/
def traceContract : Contract (Noted Call Obs) (History World Obs) Event where
  envOk := fun _ _ => True
  opOk := fun _ x => NoEnter x.world
  pre := fun o x => Orderly x.trace ∧
    ∀ before a, x.trace = before ++ [a] → a.Due → Prompt o

/-- An assertion on the history and the current handler. -/
def See (Φ : List Obs → St → Prop) (x : History World Obs) : Prop :=
  Φ x.trace x.world.stHandler

theorem see_stable (Φ : List Obs → St → Prop) :
    Stable (notedLayer p) traceContract (See Φ) := by
  rintro x x' hx ⟨e, _, he⟩
  obtain ⟨w, hw, rfl⟩ := Option.map_eq_some_iff.mp he
  have hst := (Event.around hw).stHandler
  rw [See, hst]
  exact hx

variable {α : Type} {Q : α → History World Obs → Prop} {Φ Ψ : List Obs → St → Prop}
  {x : History World Obs}

theorem wp_ret {a : α} (hx : See Φ x) (h : ∀ x, See Φ x → Q a x) :
    wp (notedLayer p) traceContract (.ret a) Q x :=
  fun x₁ h₁ => h x₁ ((see_stable Φ).star hx h₁)

/-- A call, with what it leaves in the history. -/
theorem wp_op {o : Call} {k : o.Res → NotedLayerProg α} (hx : See Φ x)
    (hpre : ∀ x, See Φ x → traceContract.pre (.op o) x)
    (h : ∀ w tr ch r w', Φ tr w.stHandler → NoEnter w → Call.exec p o ch w = some (r, w') →
      wp (notedLayer p) traceContract (k r) Q ⟨w', tr ++ o.obs r⟩) :
    wp (notedLayer p) traceContract (.call (.op o) k) Q x := by
  intro x₁ h₁
  have hx₁ := (see_stable Φ).star hx h₁
  refine ⟨hpre x₁ hx₁, fun ch r x₂ hok hex => ?_⟩
  obtain ⟨⟨r', w'⟩, hw, heq⟩ := Option.map_eq_some_iff.mp hex
  cases heq
  exact h x₁.world x₁.trace ch r' w' hx₁ hok hw

theorem wp_note {n : Obs} {k : Unit → NotedLayerProg α} (hx : See Φ x)
    (hpre : ∀ x, See Φ x → traceContract.pre (.note n) x)
    (h : ∀ w tr, Φ tr w.stHandler →
      wp (notedLayer p) traceContract (k ()) Q ⟨w, tr ++ [n]⟩) :
    wp (notedLayer p) traceContract (.call (.note n) k) Q x := by
  intro x₁ h₁
  have hx₁ := (see_stable Φ).star hx h₁
  refine ⟨hpre x₁ hx₁, fun ch r x₂ _ hex => ?_⟩
  cases hex
  exact h x₁.world x₁.trace hx₁

/-- Calls that leave nothing in the history. -/
def Call.Silent : Call → Prop
  | .flagsWaitAny | .setStHandler _ | .flagsSet _ => False
  | _ => True

theorem silent_obs {o : Call} (ho : o.Silent) (r : o.Res) : o.obs r = [] := by
  cases o with
  | flagsWaitAny => cases ho
  | setStHandler st => cases ho
  | flagsSet f => cases ho
  | _ => rfl

theorem silent_stHandler {o : Call} (ho : o.Silent) {ch : Choice} {r : o.Res} {w w' : World}
    (h : Call.exec p o ch w = some (r, w')) : w'.stHandler = w.stHandler := by
  have hf := (exec_frame h).stHandler
  cases o with
  | setStHandler st => cases ho
  | _ => exact hf

theorem wp_silent {o : Call} {k : o.Res → NotedLayerProg α} (ho : o.Silent) (hx : See Φ x)
    (hpre : ∀ x, See Φ x → traceContract.pre (.op o) x)
    (h : ∀ r x, See Φ x → wp (notedLayer p) traceContract (k r) Q x) :
    wp (notedLayer p) traceContract (.call (.op o) k) Q x := by
  refine wp_op hx hpre fun w tr ch r w' hΦ _ hex => ?_
  rw [silent_obs ho, List.append_nil]
  refine h r _ ?_
  rw [See, silent_stHandler ho hex]
  exact hΦ

/-- The history is orderly, shows the current handler and ends with `a`. -/
structure Ends (a : Obs) (tr : List Obs) (st : St) : Prop where
  orderly : Orderly tr
  current : current tr = some st
  last : ∃ before, tr = before ++ [a]

theorem Ends.pre {a : Obs} {o : Noted Call Obs} {x : History World Obs} (hx : See (Ends a) x)
    (ho : a.Due → Prompt o) : traceContract.pre o x := by
  refine ⟨hx.orderly, fun before a' heq hdue => ho ?_⟩
  obtain ⟨before', hlast⟩ := hx.last
  obtain ⟨_, ha⟩ := List.append_inj' (hlast.symm.trans heq) rfl
  cases ha
  exact hdue

theorem Ends.snoc {a b : Obs} {tr : List Obs} {st : St} (h : Ends a tr st)
    (hf : ∀ before, tr = before ++ [a] → Follows before a b) (hk : KeepsNext a b)
    (hb : ∀ st', b ≠ .moved st') : Ends b (tr ++ [b]) st := by
  obtain ⟨before, rfl⟩ := h.last
  refine ⟨h.orderly.snoc (hf before rfl) hk, ?_, _, rfl⟩
  rw [current_other _ hb]
  exact h.current

theorem Ends.moved {a : Obs} {tr : List Obs} {st next : St} (h : Ends a tr st)
    (ha : a.Inside) (hk : KeepsNext a (.moved next)) :
    Ends (.moved next) (tr ++ [.moved next]) next := by
  obtain ⟨before, rfl⟩ := h.last
  refine ⟨h.orderly.snoc (follows_inside ha (by simp) (by simp)) hk, ?_, _, rfl⟩
  exact current_moved _ next

theorem inside_not_due {a : Obs} (ha : a.Inside) (hd : a.Due) : False := by
  cases a <;> first | exact ha | exact hd

/-- A handler's program, from `a` on: it neither waits nor asks for the handler set, sets
one only to return `SM_RET_TRAN` at once, and keeps `EVT_SM_NEXT`. -/
inductive Handles : Obs → LayerProg SmRet → Prop where
  | stay {a : Obs} {r : SmRet} : r ≠ .tran → KeepsNext a (.returned r) → Handles a (pure r)
  | move {a : Obs} (st : St) : KeepsNext a (.moved st) → Handles a (smTran st)
  | post {a : Obs} {f : BitVec 32} {k : Unit → LayerProg SmRet} : KeepsNext a (.posted f) →
      (∀ u, Handles (.posted f) (k u)) → Handles a (perform (.flagsSet f) >>= k)
  | quiet {a : Obs} {o : Call} {k : o.Res → LayerProg SmRet} : o.Silent →
      (∀ r, Handles a (k r)) → Handles a (perform o >>= k)

/-- A handler has returned `r`. -/
def Done (r : SmRet) (tr : List Obs) (st : St) : Prop :=
  (r = .tran ∧ ∃ st', Ends (.moved st') tr st) ∨
    (r ≠ .tran ∧ ∃ a, Ends a tr st ∧ a.Inside ∧ KeepsNext a (.returned r))

theorem wp_handles {a : Obs} {q : LayerProg SmRet} (hq : Handles a q) (ha : a.Inside)
    {k : SmRet → NotedLayerProg α} (hx : See (Ends a) x)
    (h : ∀ r x, See (Done r) x → wp (notedLayer p) traceContract (k r) Q x) :
    wp (notedLayer p) traceContract (q.lift >>= k) Q x := by
  have inside : ∀ {o : Noted Call Obs} {a : Obs}, a.Inside → ∀ x, See (Ends a) x →
      traceContract.pre o x := fun ha _ hx => Ends.pre hx fun hd => (inside_not_due ha hd).elim
  induction hq generalizing x with
  | stay hr hk => exact h _ x (Or.inr ⟨hr, _, hx, ha, hk⟩)
  | move st hk =>
    refine wp_op hx (inside ha) fun w tr ch r w' hw _ hex => ?_
    cases hex
    exact h .tran _ (Or.inl ⟨rfl, st, hw.moved ha hk⟩)
  | post hk _ ih =>
    refine wp_op hx (inside ha) fun w tr ch u w' hw _ hex => ?_
    cases hex
    refine ih () trivial (hw.snoc (fun before _ => ?_) hk (by simp))
    exact follows_inside ha (by simp) (by simp)
  | quiet ho _ ih => exact wp_silent ho hx (inside ha) fun r x hx => ih r ha hx

end Rules

/-! The handlers. -/

section Handlers
variable {a : Obs}

theorem handles_calls {α : Type} {q : LayerProg α} {k : α → LayerProg SmRet}
    (hq : q.Calls Call.Silent) (hk : ∀ r, Handles a (k r)) : Handles a (q >>= k) := by
  induction q with
  | ret r => exact hk r
  | call o k' ih => exact .quiet hq.1 fun r => ih r (hq.2 r)

theorem initRadio_silent : initRadio.Calls Call.Silent := by
  repeat' first | trivial | refine calls_perform trivial fun _ => ?_

/-- A call of another handler than Setting's has no `EVT_SM_NEXT` to keep. -/
theorem keepsNext_other {st : St} {f : BitVec 32} {b : Obs} (hst : st ≠ .setting) :
    KeepsNext (.called st f) b :=
  keepsNext_of_not_called fun g h => hst (by cases h; rfl)

theorem keepsNext_posted {f : BitVec 32} {b : Obs} : KeepsNext (.posted f) b :=
  keepsNext_of_not_called fun g h => by cases h

theorem handles_initing (p : Platform) (f : BitVec 32) :
    Handles (.called .initing f) (stIniting p f) := by
  have hk : ∀ b, KeepsNext (.called .initing f) b := fun b => keepsNext_other (by decide)
  unfold stIniting
  split
  · refine .quiet trivial fun _ => handles_calls initRadio_silent fun _ => ?_
    repeat refine .quiet trivial fun _ => ?_
    exact .move .setting (hk _)
  · exact .stay (by decide) (hk _)

theorem handles_setting {f : BitVec 32} (hf : f = evtSmEnter ∨ has f evtSmEnter = false) :
    Handles (.called .setting f) (stSetting f) := by
  have hleave : ∀ st, st = .txing ∨ st = .lstning → KeepsNext (.called .setting f) (.moved st) := by
    rintro st (rfl | rfl) g _ _
    · exact Or.inl rfl
    · exact Or.inr (Or.inl rfl)
  have hpost : KeepsNext (.called .setting f) (.posted evtSmNext) := fun g _ _ => Or.inr (Or.inr rfl)
  have hno : has f evtSmNext = false → ∀ b, KeepsNext (.called .setting f) b := by
    intro hn b g hg hg'
    cases hg
    rw [hn] at hg'
    cases hg'
  unfold stSetting
  split
  · rename_i hent
    -- the entry event arrives alone
    have hn : has f evtSmNext = false := by
      rcases hf with rfl | hf
      · rfl
      · rw [hf] at hent
        cases hent
    refine .quiet trivial fun sleep => ?_
    split
    · exact .quiet trivial fun _ => .stay (by decide) (hno hn _)
    · exact .post hpost fun _ => .stay (by decide) keepsNext_posted
  split
  · exact .quiet trivial fun _ => .post hpost fun _ => .stay (by decide) keepsNext_posted
  split
  · refine .quiet trivial fun _ => .quiet trivial fun empty => ?_
    split
    · repeat refine .quiet trivial fun _ => ?_
      exact .move .txing (hleave _ (Or.inl rfl))
    · repeat refine .quiet trivial fun _ => ?_
      exact .move .lstning (hleave _ (Or.inr rfl))
  · rename_i hn
    exact .stay (by decide) (hno (by simpa using hn) _)

theorem handles_onBtn {f : BitVec 32} : Handles (.called .lstning f) onBtn := by
  have hk : ∀ b, KeepsNext (.called .lstning f) b := fun b => keepsNext_other (by decide)
  unfold onBtn
  repeat refine .quiet trivial fun _ => ?_
  exact .post (hk _) fun _ => .stay (by decide) keepsNext_posted

theorem handles_lstning (f : BitVec 32) : Handles (.called .lstning f) (stLstning f) := by
  have hk : ∀ b, KeepsNext (.called .lstning f) b := fun b => keepsNext_other (by decide)
  unfold stLstning
  split
  · repeat refine .quiet trivial fun _ => ?_
    exact .stay (by decide) (hk _)
  split
  · exact .quiet trivial fun _ => .stay (by decide) (hk _)
  split
  · exact .quiet trivial fun _ => .move .setting (hk _)
  split
  · exact handles_onBtn
  split
  · exact .move .rxing (hk _)
  · exact .stay (by decide) (hk _)

theorem handles_rxing (f : BitVec 32) : Handles (.called .rxing f) (stRxing f) := by
  have hk : ∀ b, KeepsNext (.called .rxing f) b := fun b => keepsNext_other (by decide)
  unfold stRxing
  split
  · exact .stay (by decide) (hk _)
  split
  · exact .move .setting (hk _)
  · exact .stay (by decide) (hk _)

theorem handles_txing (f : BitVec 32) : Handles (.called .txing f) (stTxing f) := by
  have hk : ∀ b, KeepsNext (.called .txing f) b := fun b => keepsNext_other (by decide)
  unfold stTxing
  split
  · repeat refine .quiet trivial fun _ => ?_
    exact .stay (by decide) (hk _)
  split
  · exact .move .setting (hk _)
  · exact .stay (by decide) (hk _)

theorem handles_handler (p : Platform) (st : St) {f : BitVec 32}
    (hf : f = evtSmEnter ∨ has f evtSmEnter = false) :
    Handles (.called st f) (handler p st f) := by
  cases st with
  | initing => exact handles_initing p f
  | setting => exact handles_setting hf
  | lstning => exact handles_lstning f
  | rxing => exact handles_rxing f
  | txing => exact handles_txing f

end Handlers

/-! The loop. -/

section Loop
variable {p : Platform}

/-- Between two rounds, with the locals of the round before. -/
def AtTop (l : Locals) (tr : List Obs) (st : St) : Prop :=
  (l.retval = .tran ∧ l.evtFlags = 0 ∧ l.evtFlagEnter = evtSmEnter ∧
      Ends (.returned .tran) tr st) ∨
    (l.retval ≠ .tran ∧ l.evtFlagEnter = 0 ∧
      ∃ a, Ends a tr st ∧ a.Rests ∧ ∀ st', a = .moved st' → tr = [a])

/-- A handler is due to be called with the flags `f`. -/
def DueCall (f : BitVec 32) (tr : List Obs) (st : St) : Prop :=
  ∃ a, Ends a tr st ∧
    (a = .returned .tran ∧ f = evtSmEnter ∨ a = .woke f ∧ has f evtSmEnter = false)

theorem DueCall.pre {f : BitVec 32} {o : Noted Call Obs} {x : History World Obs}
    (hx : See (DueCall f) x) (ho : Prompt o) : traceContract.pre o x := by
  obtain ⟨a, ha, _⟩ := hx
  exact Ends.pre ha fun _ => ho

theorem DueCall.enters {f : BitVec 32} {tr : List Obs} {st : St} (h : DueCall f tr st) :
    f = evtSmEnter ∨ has f evtSmEnter = false := by
  obtain ⟨a, _, ⟨_, hf⟩ | ⟨_, hf⟩⟩ := h
  · exact Or.inl hf
  · exact Or.inr hf

/-- Before `SM_RET_TRAN` comes the handler set. -/
theorem Ends.tran {tr : List Obs} {st : St} (h : Ends (.returned .tran) tr st) :
    ∃ before, tr = before ++ [.moved st] ++ [.returned .tran] := by
  obtain ⟨before, rfl⟩ := h.last
  rcases List.eq_nil_or_concat before with rfl | ⟨before', b, rfl⟩
  · cases h.orderly.first _ [] rfl
  · obtain ⟨hf, _⟩ := h.orderly.neighbours before' b (.returned .tran) [] (by simp)
    obtain ⟨st', rfl⟩ := hf.tran rfl
    have hcur := h.current
    rw [current_other _ (by simp), List.concat_eq_append, current_moved] at hcur
    cases hcur
    exact ⟨before', by simp⟩

/-- The call due follows in order. -/
theorem DueCall.called {f : BitVec 32} {tr : List Obs} {st : St} (h : DueCall f tr st) :
    Ends (.called st f) (tr ++ [.called st f]) st := by
  obtain ⟨a, ha, hcase⟩ := h
  have hk : KeepsNext a (.called st f) := by
    rcases hcase with ⟨rfl, _⟩ | ⟨rfl, _⟩ <;> exact keepsNext_of_not_called (by simp)
  refine ha.snoc (fun before htr => ?_) hk (by simp)
  rcases hcase with ⟨rfl, rfl⟩ | ⟨rfl, hf⟩
  · obtain ⟨before', htr'⟩ := ha.tran
    obtain ⟨hbefore, _⟩ := List.append_inj' (htr.symm.trans htr') rfl
    exact ⟨fun _ => ⟨before', st, hbefore, rfl⟩, by simp, fun _ _ _ => Or.inl rfl, by simp, by simp⟩
  · have hcur : current before = some st := by
      rw [← ha.current, htr, current_other _ (by simp)]
    refine ⟨by simp, fun g hg => ?_, fun st' g hg => ?_, by simp, by simp⟩
    · cases hg
      exact ⟨st, hcur, rfl⟩
    · cases hg
      exact Or.inr ⟨rfl, hf⟩

theorem Ends.woke {a : Obs} {tr : List Obs} {st : St} {f : BitVec 32} (h : Ends a tr st)
    (ha : a.Rests) (hfirst : ∀ st', a = .moved st' → tr = [a]) :
    Ends (.woke f) (tr ++ [.woke f]) st := by
  refine h.snoc (fun before htr => follows_woke ha fun st' hst => ?_) ?_ (by simp)
  · have heq : before ++ [a] = [] ++ [a] := htr.symm.trans (hfirst st' hst)
    exact List.append_cancel_right heq
  refine keepsNext_of_not_called ?_
  rintro g rfl
  exact ha

theorem rests_not_due {a : Obs} (ha : a.Rests) (hd : a.Due) : False := by
  cases a <;> first | exact ha hd | exact ha | exact hd

variable {α : Type} {Q : α → History World Obs → Prop} {x : History World Obs}

theorem wp_nextFlags {l : Locals} {k : BitVec 32 → NotedLayerProg α} (hx : See (AtTop l) x)
    (h : ∀ f x, See (DueCall (f ||| l.evtFlagEnter)) x →
      wp (notedLayer p) traceContract (k f) Q x) :
    wp (notedLayer p) traceContract ((nextFlags l).lift >>= k) Q x := by
  unfold nextFlags
  rcases hx with ⟨ht, hf, he, hend⟩ | ⟨ht, he, a, hend, ha, hfirst⟩
  · rw [if_neg (by simp [ht])]
    refine h l.evtFlags x ⟨_, hend, Or.inl ⟨rfl, ?_⟩⟩
    rw [hf, he]
    rfl
  · rw [if_pos ht]
    refine wp_op (Φ := fun tr st => Ends a tr st ∧ ∀ st', a = .moved st' → tr = [a]) ⟨hend, hfirst⟩
      (fun x hx => Ends.pre hx.1 fun hd => (rests_not_due ha hd).elim)
      fun w tr ch f w' hw hno hex => ?_
    obtain ⟨_, hex⟩ := Option.ite_none_right_eq_some.mp hex
    cases hex
    refine h w.flags _ ⟨_, hw.1.woke ha hw.2, Or.inr ?_⟩
    have hor : w.flags ||| 0 = w.flags := BitVec.or_zero
    rw [he, hor]
    exact ⟨rfl, hno⟩

theorem wp_onInit {f g : BitVec 32} {k : Unit → NotedLayerProg α} (hx : See (DueCall g) x)
    (h : ∀ x, See (DueCall g) x → wp (notedLayer p) traceContract (k ()) Q x) :
    wp (notedLayer p) traceContract ((onInit f).lift >>= k) Q x := by
  unfold onInit
  split
  · split
    · exact wp_silent (o := .attachTicker) trivial hx (fun _ hx => DueCall.pre hx trivial)
        fun _ x hx => h x hx
    · exact h x hx
  · exact h x hx

/-- One round keeps the order. -/
theorem wp_notedLoop {l : Locals} (hx : See (AtTop l) x) :
    wp (notedLayer p) traceContract (notedLoop p l) (fun l x => See (AtTop l) x) x := by
  refine wp_nextFlags hx fun f x hx => ?_
  refine wp_onInit hx fun x hx => ?_
  refine wp_op (o := .getStHandler) hx (fun _ hx => DueCall.pre hx trivial)
    fun w tr ch st w' hw _ hex => ?_
  cases hex
  have hsame : tr ++ Call.obs .getStHandler w.stHandler = tr := List.append_nil tr
  rw [hsame]
  refine wp_note (Φ := fun tr st' => DueCall (f ||| l.evtFlagEnter) tr st' ∧ st' = w.stHandler)
    ⟨hw, rfl⟩ (fun _ hx => DueCall.pre hx.1 trivial) fun w' tr' hw' => ?_
  obtain ⟨hdue, hst⟩ := hw'
  rw [← hst]
  refine wp_handles (handles_handler p _ hdue.enters) trivial hdue.called fun r x hx => ?_
  refine wp_note hx (fun x hx => ?_) fun w tr hw => ?_
  · rcases hx with ⟨_, st', hend⟩ | ⟨_, a, hend, ha, _⟩
    · exact Ends.pre hend fun hd => by cases hd
    · exact Ends.pre hend fun hd => (inside_not_due ha hd).elim
  rcases hw with ⟨rfl, st', hend⟩ | ⟨hr, a, hend, ha, hk⟩
  · have hret : Ends (.returned .tran) (tr ++ [.returned .tran]) w.stHandler :=
      hend.snoc (fun before _ => follows_moved before st') (keepsNext_of_not_called (by simp))
        (by simp)
    exact wp_ret (Φ := Ends (.returned .tran)) hret fun x hx => Or.inl ⟨rfl, rfl, rfl, hx⟩
  · have hret : Ends (.returned r) (tr ++ [.returned r]) w.stHandler :=
      hend.snoc (fun before _ => follows_inside ha (by simp) (by simpa using hr)) hk (by simp)
    exact wp_ret (Φ := Ends (.returned r)) hret fun x hx =>
      Or.inr ⟨hr, if_neg hr, _, hx, hr, by simp⟩

theorem orderly_nil : Orderly [] where
  first := fun a after h => by cases h
  neighbours := neighbours_nil

theorem orderly_start : Orderly [.moved .initing] where
  first := fun a after h => by
    cases h
    rfl
  neighbours := neighbours_single _

theorem ends_start : Ends (.moved .initing) [.moved .initing] .initing where
  orderly := orderly_start
  current := rfl
  last := ⟨[], rfl⟩

theorem wp_mainStart {w : World} {uninit : BitVec 32} :
    wp (notedLayer p) traceContract (mainStart uninit).lift (fun l x => See (AtTop l) x)
      ⟨w, []⟩ := by
  refine wp_op (Φ := fun tr _ => tr = []) rfl (fun x hx => ?_) fun w tr ch r w' htr _ hex => ?_
  · have htr : x.trace = [] := hx
    refine ⟨htr ▸ orderly_nil, fun before a heq => ?_⟩
    rw [htr] at heq
    simp at heq
  · cases hex
    cases htr
    refine wp_ret (Φ := fun tr st => Ends (.moved .initing) tr st ∧ tr = [.moved .initing])
      ⟨ends_start, rfl⟩ fun x hx => ?_
    exact Or.inr ⟨by simp, rfl, _, hx.1, trivial, fun _ _ => hx.2⟩

/-- In every run the history is orderly, and a call that is due is not waited for. -/
theorem reach_trace {c : NotedConfig}
    (h : (notedLayer p).Reach NotedStarted (fun _ _ => True) c) :
    Orderly c.world.trace ∧ ∀ before a, c.world.trace = before ++ [a] → a.Due →
      ∀ o, c.prog.nextOp = some o → Prompt o := by
  have hno : ∀ c, (notedLayer p).Reach NotedStarted (fun _ _ => True) c → NoEnter c.world.world :=
    fun c hc => reach_noEnter p ((notedLayer_erase p).mpr ⟨c, hc, rfl⟩)
  have hg : (notedLayer p).Reach NotedStarted traceContract.guard c :=
    reach_guard (fun _ _ => trivial) (fun c hc _ _ => hno c hc) h
  have hwp : wp (notedLayer p) traceContract c.prog (fun l x => See (AtTop l) x) c.world := by
    refine reach_wp ?_ (fun l x hx => wp_notedLoop hx) hg
    rintro ⟨⟨w, tr⟩, q⟩ ⟨hw, htr, uninit, hq⟩
    cases htr
    cases hq
    exact wp_mainStart
  obtain ⟨x, q⟩ := c
  cases q with
  | ret l =>
    refine ⟨?_, fun _ _ _ _ o ho => by cases ho⟩
    rcases wp_post hwp with ⟨_, _, _, hend⟩ | ⟨_, _, a, hend, _⟩
    · exact hend.orderly
    · exact hend.orderly
  | call o k =>
    obtain ⟨horder, hdue⟩ := wp_pre hwp
    refine ⟨horder, fun before a htr ha o' ho' => ?_⟩
    cases ho'
    exact hdue before a htr ha

end Loop
