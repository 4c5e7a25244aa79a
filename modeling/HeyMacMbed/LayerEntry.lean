import HeyMacMbed.LayerTrace

/-!
# Entry events

A state handler takes the entry event of its state before anything else, and it
takes it alone: every history of every run of the layer says so.
-/

open Bits Threads HeyMacLayer

/-- The entry rule, in a configuration with its history. -/
structure EntryRule (p : Platform) (t : NotedConfig) : Prop where
  /-- No handler is called before the first wait. -/
  first : ∀ a after, t.world.trace = a :: after → a = .moved .initing
  follows : Neighbours Follows t.world.trace
  notPosted : NoEnter t.world.world
  /-- Nothing can hold up a call that is due. -/
  prompt : ∀ before a, t.world.trace = before ++ [a] → a.Due →
    ∀ ch, ((notedLayer p).step t (.act ch)).isSome
  /-- Nothing but a wait consumes a pending flag. -/
  pending : ∀ l t', (notedLayer p).step t l = some t' →
    (∃ f, t'.world.trace = t.world.trace ++ [.woke f]) ∨
      ∀ m, has t.world.world.flags m = true → has t'.world.world.flags m = true

theorem prompt_step {p : Platform} {t : NotedConfig}
    (h : ∀ o, t.prog.nextOp = some o → Prompt o) (ch : Choice) :
    ((notedLayer p).step t (.act ch)).isSome := by
  obtain ⟨x, q⟩ := t
  cases q with
  | ret l => rfl
  | call o k =>
    have ho := h o rfl
    cases o with
    | note n => rfl
    | op o =>
      cases o with
      | attachTicker => rfl
      | getStHandler => rfl
      | _ => cases ho

/-- A call of the thread consumes no flag, a wait apart. -/
theorem exec_pending {p : Platform} {o : Call} {ch : Choice} {w w' : World} {r : o.Res}
    (h : Call.exec p o ch w = some (r, w')) :
    (∃ f, o.obs r = [.woke f]) ∨ ∀ m, has w.flags m = true → has w'.flags m = true := by
  have hf := (exec_frame h).flags
  cases o with
  | flagsWaitAny => exact Or.inl ⟨r, rfl⟩
  | flagsSet f =>
    refine Or.inr fun m hm => ?_
    rw [hf, has_or, hm, Bool.true_or]
  | _ =>
    refine Or.inr fun m hm => ?_
    rw [hf]
    exact hm

theorem step_pending {p : Platform} {t t' : NotedConfig} {l : Label Event Choice}
    (h : (notedLayer p).step t l = some t') :
    (∃ f, t'.world.trace = t.world.trace ++ [.woke f]) ∨
      ∀ m, has t.world.world.flags m = true → has t'.world.world.flags m = true := by
  obtain ⟨x, q⟩ := t
  cases l with
  | env e =>
    obtain ⟨x', hx, rfl⟩ := Option.map_eq_some_iff.mp h
    obtain ⟨w, hw, rfl⟩ := Option.map_eq_some_iff.mp hx
    exact Or.inr (Event.around hw).flags
  | act ch =>
    cases q with
    | ret a =>
      cases h
      exact Or.inr fun _ hm => hm
    | call o k =>
      obtain ⟨⟨r, x'⟩, hx, rfl⟩ := Option.map_eq_some_iff.mp h
      cases o with
      | note n =>
        cases hx
        exact Or.inr fun _ hm => hm
      | op o =>
        obtain ⟨⟨r', w'⟩, hw, heq⟩ := Option.map_eq_some_iff.mp hx
        cases heq
        rcases exec_pending hw with ⟨f, hf⟩ | hkept
        · exact Or.inl ⟨f, congrArg (x.trace ++ ·) hf⟩
        · exact Or.inr hkept

theorem reach_entryRule {p : Platform} {t : NotedConfig}
    (h : (notedLayer p).Reach NotedStarted (fun _ _ => True) t) : EntryRule p t := by
  obtain ⟨horder, hdue⟩ := reach_trace h
  constructor
  · exact horder.first
  · exact fun before a b after htr => (horder.neighbours before a b after htr).1
  · exact reach_noEnter p ((notedLayer_erase p).mpr ⟨t, h, rfl⟩)
  · exact fun before a htr ha ch => prompt_step (hdue before a htr ha) ch
  · exact fun l t' hstep => step_pending hstep

/-- Every run of the layer has a history, and every history of it keeps the entry rule. -/
theorem layer_entryRule (p : Platform) {c : LayerConfig}
    (h : (layer p).Reach Started (fun _ _ => True) c) :
    (∃ t, (notedLayer p).Reach NotedStarted (fun _ _ => True) t ∧ t.erase = c) ∧
      ∀ t, (notedLayer p).Reach NotedStarted (fun _ _ => True) t → t.erase = c →
        EntryRule p t :=
  ⟨(notedLayer_erase p).mp h, fun _ ht _ => reach_entryRule ht⟩

/-- The history from the start until the loop waits in Lstning. -/
def lstningHistory : List Obs :=
  [.moved .initing, .woke evtThrdInit, .called .initing evtThrdInit, .moved .setting,
    .returned .tran, .called .setting evtSmEnter, .posted evtSmNext, .returned .handled,
    .woke evtSmNext, .called .setting evtSmNext, .moved .lstning, .returned .tran,
    .called .lstning evtSmEnter, .returned .handled]

theorem layer_entryRule_lstning :
    ∃ t : NotedConfig, t.world.trace = lstningHistory ∧ EntryRule .plain t := by
  obtain ⟨t, ht, htr⟩ := reach_noted (.env .threadStarted :: acts 53)
    (fun t => t.world.trace == lstningHistory) (by decide +kernel)
  have hrule := layer_entryRule .plain ((notedLayer_erase .plain).mpr ⟨t, ht, rfl⟩)
  exact ⟨t, eq_of_beq htr, hrule.2 t ht rfl⟩
