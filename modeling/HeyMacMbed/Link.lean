import HeyMacMbed.Radio

/-!
# The link

What driving a half-duplex radio comes to: it is reset and put to sleep once, for
its LoRa mode, and then takes turns. A turn starts in standby with
settings, interrupts and FIFO pointers for one direction and ends with a frame
loaded and sent, or with the receiver on. Frames are of any type here; the
layer's runs are shown elsewhere to be runs of this machine.
-/

open Bits Octets

namespace Link

/-- A command to the radio. -/
inductive Cmd (F : Type) where
  | reset
  | mode (m : OpMode)
  | sleepStngs
  | stngs (forRx : Bool)
  | irqMask (disableThese enableThese : Octet)
  | irqFlags (clearThese : Octet)
  | fifoPtr (offset : Octet)
  | load (frm : F)
  deriving DecidableEq

/-- How far the radio has been driven. -/
inductive Phase where
  | off | fresh | asleep | loraOn | ready | standby
  | tuned (forRx : Bool) | masked (forRx : Bool) | cleared (forRx : Bool) | pointed (forRx : Bool)
  | loaded | sending | listening
  deriving DecidableEq

/-- Between two turns. -/
def Phase.Rests : Phase → Prop
  | .ready | .sending | .listening => True
  | _ => False

/-- The interrupts of a direction. -/
def irqs (forRx : Bool) : Octet :=
  if forRx then loraIrqRxDone ||| loraIrqPayldCrcErr ||| loraIrqValidHeader else loraIrqTxDone

variable {F : Type}

inductive Step : Phase → Cmd F → Phase → Prop where
  | reset : Step .off .reset .fresh
  | sleep : Step .fresh (.mode .sleep) .asleep
  | lora : Step .asleep .sleepStngs .loraOn
  | wake : Step .loraOn (.mode .stby) .ready
  | again {φ : Phase} : φ.Rests → Step φ .sleepStngs φ
  | leave : Step .listening (.mode .stby) .ready
  | stand {φ : Phase} : φ.Rests → Step φ (.mode .stby) .standby
  | tune (forRx : Bool) : Step .standby (.stngs forRx) (.tuned forRx)
  | mask (forRx : Bool) : Step (.tuned forRx) (.irqMask loraIrqAll (irqs forRx)) (.masked forRx)
  | clear (forRx : Bool) : Step (.masked forRx) (.irqFlags (irqs forRx)) (.cleared forRx)
  | point (forRx : Bool) : Step (.cleared forRx) (.fifoPtr 0) (.pointed forRx)
  | load (frm : F) : Step (.pointed false) (.load frm) .loaded
  | send : Step .loaded (.mode .tx) .sending
  | listen : Step (.pointed true) (.mode .rxcont) .listening

/-- The commands from power-up on, and the phase they lead to. -/
inductive Run : List (Cmd F) → Phase → Prop where
  | nil : Run [] .off
  | snoc {tr : List (Cmd F)} {φ ψ : Phase} {a : Cmd F} : Run tr φ → Step φ a ψ →
      Run (tr ++ [a]) ψ

/-- The commands of a turn before its frame or its reception. -/
def turn (forRx : Bool) : List (Cmd F) :=
  [.mode .stby, .stngs forRx, .irqMask loraIrqAll (irqs forRx), .irqFlags (irqs forRx), .fifoPtr 0]

/-- The last command of a run. -/
theorem Run.last {tr : List (Cmd F)} {a : Cmd F} {ψ : Phase} (h : Run (tr ++ [a]) ψ) :
    ∃ φ, Run tr φ ∧ Step φ a ψ := by
  generalize heq : tr ++ [a] = tr' at h
  cases h with
  | nil => simp at heq
  | snoc h hs =>
    obtain ⟨rfl, ha⟩ := List.append_inj' heq rfl
    cases ha
    exact ⟨_, h, hs⟩

/-- Every run has been a run all along. -/
theorem Run.before {tr after : List (Cmd F)} {ψ : Phase} (h : Run (tr ++ after) ψ) :
    ∃ φ, Run tr φ := by
  induction after using List.reverseRecOn generalizing ψ with
  | nil => exact ⟨ψ, by simpa using h⟩
  | append_singleton after a ih =>
    rw [← List.append_assoc] at h
    obtain ⟨φ, h, _⟩ := h.last
    exact ih h

/-- How much of a turn is done in a phase. -/
def underway : Phase → List (Cmd F)
  | .standby => [.mode .stby]
  | .tuned forRx => (turn forRx).take 2
  | .masked forRx => (turn forRx).take 3
  | .cleared forRx => (turn forRx).take 4
  | .pointed forRx => turn forRx
  | _ => []

/-- The commands of the turn begun are the last ones given. -/
theorem Run.underway {tr : List (Cmd F)} {φ : Phase} (h : Run tr φ) :
    ∃ before, tr = before ++ underway φ := by
  induction h with
  | nil => exact ⟨[], rfl⟩
  | @snoc tr φ ψ a _ hs ih =>
    obtain ⟨before, rfl⟩ := ih
    cases hs with
    | stand _ => exact ⟨_, rfl⟩
    | tune forRx => exact ⟨before, by simp [Link.underway, turn]⟩
    | mask forRx => exact ⟨before, by simp [Link.underway, turn]⟩
    | clear forRx => exact ⟨before, by simp [Link.underway, turn]⟩
    | point forRx => exact ⟨before, by simp [Link.underway, turn]⟩
    | again hr =>
      refine ⟨before ++ Link.underway φ ++ [.sleepStngs], ?_⟩
      cases φ <;> first | exact (List.append_nil _).symm | exact absurd hr id
    | _ => exact ⟨_, (List.append_nil _).symm⟩

/-- Any command in a run is a step of it. -/
theorem Run.at {before after : List (Cmd F)} {a : Cmd F} {ψ : Phase}
    (h : Run (before ++ a :: after) ψ) :
    ∃ φ χ, Run before φ ∧ Step φ a χ ∧ Run (before ++ [a]) χ := by
  have hsplit : before ++ a :: after = before ++ [a] ++ after := by simp
  rw [hsplit] at h
  obtain ⟨χ, h⟩ := h.before
  obtain ⟨φ, hφ, hs⟩ := h.last
  exact ⟨φ, χ, hφ, hs, .snoc hφ hs⟩

/-- A frame is loaded right after the preparation of a turn to send. -/
theorem Run.loaded {before after : List (Cmd F)} {frm : F} {ψ : Phase}
    (h : Run (before ++ .load frm :: after) ψ) : ∃ tr, before = tr ++ turn false := by
  obtain ⟨φ, χ, h, hs, _⟩ := h.at
  cases hs
  exact h.underway

/-- The radio is told to send right after one load. -/
theorem Run.sent {before after : List (Cmd F)} {ψ : Phase}
    (h : Run (before ++ .mode .tx :: after) ψ) :
    ∃ tr frm, before = tr ++ turn false ++ [.load frm] := by
  obtain ⟨φ, χ, h, hs, _⟩ := h.at
  cases hs
  generalize hφ : Phase.loaded = φ at h
  cases h with
  | nil => cases hφ
  | snoc hbefore hs =>
    subst hφ
    cases hs with
    | again hr => exact absurd hr id
    | load frm =>
      obtain ⟨tr, rfl⟩ := hbefore.underway
      exact ⟨tr, frm, rfl⟩

/-- A frame loaded is sent before anything else is done. -/
theorem Run.sent_next {before after : List (Cmd F)} {frm : F} {a : Cmd F} {ψ : Phase}
    (h : Run (before ++ .load frm :: a :: after) ψ) : a = .mode .tx := by
  have hsplit : before ++ .load frm :: a :: after = before ++ [.load frm] ++ a :: after := by simp
  rw [hsplit] at h
  obtain ⟨φ, χ, h, hs, _⟩ := h.at
  obtain ⟨_, _, hload⟩ := h.last
  cases hload
  cases hs with
  | again hr => exact absurd hr id
  | stand hr => exact absurd hr id
  | send => rfl

/-- The receiver is turned on right after the preparation of a turn to receive. -/
theorem Run.listened {before after : List (Cmd F)} {ψ : Phase}
    (h : Run (before ++ .mode .rxcont :: after) ψ) : ∃ tr, before = tr ++ turn true := by
  obtain ⟨φ, χ, h, hs, _⟩ := h.at
  cases hs
  exact h.underway

/-- The radio is reset first of all, and never again. -/
theorem Run.reset {before after : List (Cmd F)} {ψ : Phase}
    (h : Run (before ++ .reset :: after) ψ) : before = [] := by
  obtain ⟨φ, χ, h, hs, _⟩ := h.at
  cases hs
  generalize hφ : Phase.off = φ at h
  cases h with
  | nil => rfl
  | snoc _ hs =>
    subst hφ
    cases hs with
    | again hr => exact absurd hr id

/-- It sleeps right after its reset, and never again. -/
theorem Run.slept {before after : List (Cmd F)} {ψ : Phase}
    (h : Run (before ++ .mode .sleep :: after) ψ) : before = [.reset] := by
  obtain ⟨φ, χ, h, hs, _⟩ := h.at
  cases hs
  generalize hφ : Phase.fresh = φ at h
  cases h with
  | nil => cases hφ
  | snoc hbefore hs =>
    subst hφ
    cases hs with
    | again hr => exact absurd hr id
    | reset => rw [(Run.snoc hbefore .reset).reset, List.nil_append]

/-- The frames loaded, in order. -/
def loads : List (Cmd F) → List F
  | [] => []
  | .load frm :: tr => frm :: loads tr
  | _ :: tr => loads tr

theorem loads_append (tr tr' : List (Cmd F)) : loads (tr ++ tr') = loads tr ++ loads tr' := by
  induction tr with
  | nil => rfl
  | cons a tr ih => cases a <;> simp [loads, ih]

/-- How often the radio is told to send. -/
def sends (tr : List (Cmd F)) : Nat :=
  tr.countP fun a => match a with
    | .mode .tx => true
    | _ => false

/-- Each frame loaded is sent once, the last one perhaps not yet. -/
theorem Run.sends {tr : List (Cmd F)} {φ : Phase} (h : Run tr φ) :
    (loads tr).length = sends tr + if φ = .loaded then 1 else 0 := by
  induction h with
  | nil => rfl
  | @snoc tr φ ψ a _ hs ih =>
    rw [loads_append, List.length_append, ih, Link.sends, Link.sends, List.countP_append]
    cases hs with
    | stand hr => cases φ <;> first | rfl | exact absurd hr id
    | _ => rfl

/-- What the radio is told comes in turns: it sends what was loaded last, and loads to send
at once; either way, and to listen, it is prepared afresh; it sleeps after its reset only. -/
structure InTurns (tr : List (Cmd F)) : Prop where
  loaded : ∀ before frm after, tr = before ++ .load frm :: after →
    ∃ rest, before = rest ++ turn false
  sent : ∀ before after, tr = before ++ .mode .tx :: after →
    ∃ rest frm, before = rest ++ turn false ++ [.load frm]
  sentNext : ∀ before frm a after, tr = before ++ .load frm :: a :: after → a = .mode .tx
  listened : ∀ before after, tr = before ++ .mode .rxcont :: after →
    ∃ rest, before = rest ++ turn true
  slept : ∀ before after, tr = before ++ .mode .sleep :: after → before = [.reset]
  sends : (loads tr).length = sends tr ∨ (loads tr).length = sends tr + 1

theorem Run.inTurns {tr : List (Cmd F)} {φ : Phase} (h : Run tr φ) : InTurns tr where
  loaded := fun _ _ _ e => (e ▸ h : Run _ φ).loaded
  sent := fun _ _ e => (e ▸ h : Run _ φ).sent
  sentNext := fun _ _ _ _ e => (e ▸ h : Run _ φ).sent_next
  listened := fun _ _ e => (e ▸ h : Run _ φ).listened
  slept := fun _ _ e => (e ▸ h : Run _ φ).slept
  sends := by
    rw [h.sends]
    split
    · exact Or.inr rfl
    · exact Or.inl rfl

end Link
