import HeyMacMbed.CmdReceived
import HeyMacMbed.FrameRoom
import HeyMacMbed.IdentBtn
import HeyMacMbed.LayerQueue

/-!
# What the button puts on air

The button handler makes a frame from the layer's identity, puts a text command over
its FCTL and queues it. As long as nobody else writes into the frames that the layer
makes, such a frame is on air what the handler made of the identity that the layer
still has, and what a receiver reads in it follows from the text alone.
-/

open Bits Octets CStrings HeyMacFrame HeyMacCmd Threads HeyMacLayer

namespace LayerButton

/-- The frame of the button with its header, in the buffer the pool gave. -/
def addressed (ident : HeyMacIdent) (buf : Mem) : HeyMacFrame :=
  buildHeader buf ⟨none, none, some (.long ident.getLongAddr)⟩

/-- The frame as the handler queues it: `stack` is what its array held before the copy, and
`len` the length of the text there. -/
def btnFrame (ident : HeyMacIdent) (buf stack : Mem) (len : Nat) : HeyMacFrame :=
  (cmdTxt (addressed ident buf) (ident.copyTacIdInto stack) (BitVec.ofNat 8 len)).2

/-- A frame that the handler made for this identity, but for the octet left for the SPI
command. -/
def Pressed (ident : HeyMacIdent) (f : HeyMacFrame) : Prop :=
  ∃ buf stack len v, Strlen (ident.copyTacIdInto stack) len ∧
    f = (btnFrame ident buf stack len).poke 0 v

/-- The frame `f` on air says `s`, with the octets `xs` behind it, to whoever receives it. -/
structure Airs (ident : HeyMacIdent) (s xs : List Octet) (f : HeyMacFrame) : Prop where
  octets : s.length ≤ 254 → LayerQueue.frmOctets f = 0xE4 :: 0x83 :: (s ++ xs)
  behind : xs.length = 2 ∧
    (s.length ≤ 6 → xs = ((get ident.longAddr 0 8).reverse.drop s.length).take 2)
  accepted : ∀ r, IsReceived r f → (r.parse.1 = true ↔ 2 ≤ s.length ∧ s.length ≤ 251)
  message : ∀ r t c, IsReceived r f → r.parse.1 = true → s = t ++ [c] →
    readMessage r.parse.2.frm r.parse.2.payldSz.toNat =
      ⟨⟨none, none, none⟩, t, some (c, .short (ofBe 16 xs))⟩

section Frame
variable (ident : HeyMacIdent) (buf : Mem)

theorem addressed_opened :
    Opened (addressed ident buf) .csmaV0 ⟨none, none, some (.long ident.getLongAddr)⟩ :=
  startHeader_opened buf .csmaV0 ⟨none, none, some (.long ident.getLongAddr)⟩

/-- The source address starts right behind FCTL. -/
theorem addressed_src : get (addressed ident buf).frm 2 8 = (get ident.longAddr 0 8).reverse := by
  have hplain : has ((HeyMacFrame.new buf).setProtocol .csmaV0).fctl fctlBitD = true →
      has ((HeyMacFrame.new buf).setProtocol .csmaV0).fctl fctlBitL = true := fun hD => by
    rw [(opened_new buf .csmaV0).flags.dst] at hD
    cases hD
  have hsrc := HeyMacIdent.srcAddrOctets_getLongAddr _ ident hplain
  have hpos : srcPos (addressed ident buf).fctl = 2 := by
    have hN := (addressed_opened ident buf).flags.netId
    have hD := (addressed_opened ident buf).flags.dst
    simp [srcPos, dstPos, hN, hD, frmIdxNetid]
  rw [srcAddrOctets] at hsrc
  rw [← hpos]
  exact hsrc

theorem btnFrame_eq (stack : Mem) (len : Nat) :
    btnFrame ident buf stack len = overFctl (addressed ident buf)
      (0x83 :: (get (ident.copyTacIdInto stack) 0 (len % 256))) := by
  rw [btnFrame, cmdTxt_empty (opened_getFrmSz (addressed_opened ident buf)), txtOctets,
    BitVec.toNat_ofNat]

end Frame

theorem poke_frm (f : HeyMacFrame) (v : Octet) : (f.poke 0 v).frm = f.frm := by
  funext i
  exact Function.update_of_ne (show sFrameStart + i ≠ 0 by simp only [sFrameStart]; omega) _ _

theorem poke_getFrmSz (f : HeyMacFrame) (v : Octet) : (f.poke 0 v).getFrmSz = f.getFrmSz := by
  have hc : (f.poke 0 v).fctl = f.fctl := poke_fctl f v (by decide)
  rw [HeyMacFrame.getFrmSz, hc]
  rfl

/-- What a frame of the handler's is on air. -/
theorem Pressed.airs {ident : HeyMacIdent} {f : HeyMacFrame} (h : Pressed ident f) :
    ∃ stack s xs, Holds (ident.copyTacIdInto stack) s ∧
      Airs ident (s.take (s.length % 256)) xs f := by
  obtain ⟨buf, stack, len, v, hlen, rfl⟩ := h
  have b := addressed_opened ident buf
  refine ⟨stack, get (ident.copyTacIdInto stack) 0 len,
    get (addressed ident buf).frm (len % 256 + 2) 2, hlen.holds, ?_⟩
  rw [get_length, get_take _ _ (Nat.mod_le len 256), btnFrame_eq]
  generalize hs : get (ident.copyTacIdInto stack) 0 (len % 256) = s
  have hsl : s.length = len % 256 := by rw [← hs, get_length]
  have hle : s.length ≤ 255 := by omega
  rw [← hsl]
  have hrec : ∀ r, IsReceived r ((overFctl (addressed ident buf) (0x83 :: s)).poke 0 v) →
      IsReceived r (overFctl (addressed ident buf) (0x83 :: s)) := by
    rintro r ⟨rxBuf, hr, hrx⟩
    rw [poke_getFrmSz] at hr hrx
    rw [poke_frm] at hrx
    exact ⟨rxBuf, hr, hrx⟩
  refine ⟨fun hshort => ?_, ⟨get_length _ _ _, fun hsix => ?_⟩, fun r hr => ?_,
    fun r t c hr hacc hst => ?_⟩
  · have hsz := overFctl_getFrmSz b 0x83 s
    have hm : mhopLen 0x83 = 3 := by decide
    have hsz : (overFctl (addressed ident buf) (0x83 :: s)).getFrmSz.toNat =
        1 + (1 + (s.length + 2)) := by omega
    have hbehind : get (overFctl (addressed ident buf) (0x83 :: s)).frm (2 + s.length) 2 =
        get (addressed ident buf).frm (s.length + 2) 2 := by
      apply get_congr
      intro k _
      rw [overFctl_behind _ _ (by omega), Nat.add_comm 2]
    have hpid : (overFctl (addressed ident buf) (0x83 :: s)).frm 0 = 0xE4 := overFctl_pid b 0x83 s
    have hcid : (overFctl (addressed ident buf) (0x83 :: s)).frm 1 = 0x83 := overFctl_fctl 0x83 s
    rw [LayerQueue.frmOctets, poke_getFrmSz, poke_frm, hsz, get_add, get_add, get_add,
      overFctl_args, hbehind]
    simp only [Octets.get, hpid, hcid, List.cons_append, List.nil_append]
  · rw [← addressed_src ident buf, get_drop _ _ (by omega), get_take _ _ (by omega),
      Nat.add_comm 2]
  · exact (txt_received b hle (hrec r hr)).1
  · rw [(txt_received b hle (hrec r hr)).2 t c hst hacc, txtMessage, hst, List.length_append,
      List.length_singleton]

/-- Another write to the FIFO changes no more of the frame than the first. -/
theorem Pressed.poke {ident : HeyMacIdent} {f : HeyMacFrame} (h : Pressed ident f) (v : Octet) :
    Pressed ident (f.poke 0 v) := by
  obtain ⟨buf, stack, len, u, hlen, rfl⟩ := h
  refine ⟨buf, stack, len, v, hlen, ?_⟩
  simp only [HeyMacFrame.poke, Function.update_idem]

/-! Frames of the layer from the press to the FIFO. -/

/-- The frames of the layer that were ever queued are as the handler made them. -/
def Kept (w : World) : Prop :=
  ∀ k, .own k ∈ w.enqueued →
    w.stHandler ≠ .initing ∧ k ∈ w.live ∧ Pressed w.hmIdent (w.frames (.own k))

/-- Nobody else writes into a frame of the layer. -/
def contract : Contract Call World Event where
  envOk := fun _ e => ∀ k f, e ≠ .changeFrame (.own k) f
  opOk := fun _ _ => True
  pre := fun _ => Kept

def ct : Contract Call World Event := contract.assuming NoEnter

/-- All that counts for the frames of the layer is the same. -/
structure Alike (w w' : World) : Prop where
  stHandler : w'.stHandler = w.stHandler
  hmIdent : w'.hmIdent = w.hmIdent
  live : w'.live = w.live
  frames : ∀ k, w'.frames (.own k) = w.frames (.own k)
  enqueued : ∀ k, .own k ∈ w'.enqueued → .own k ∈ w.enqueued

theorem alike_latch (w : World) (m : Octet) (evt : BitVec 32) (b : Bool) :
    Alike w { w.latch m evt with rxBusy := b } := by
  unfold World.latch
  split <;> exact ⟨rfl, rfl, rfl, fun _ => rfl, fun _ h => h⟩

theorem event_alike {e : Event} {w w' : World} (hok : ∀ k f, e ≠ .changeFrame (.own k) f)
    (he : e.exec w = some w') : Alike w w' := by
  cases Event.effect he with
  | post f starting n _ _ => exact ⟨rfl, rfl, rfl, fun _ => rfl, fun _ h => h⟩
  | pushBack frm txTime =>
    refine ⟨rfl, rfl, rfl, fun _ => rfl, fun k h => ?_⟩
    exact (List.mem_append.mp h).resolve_right (by simp)
  | others e n => exact ⟨rfl, rfl, rfl, fun _ => rfl, fun _ h => h⟩
  | changeFrame frm f =>
    refine ⟨rfl, rfl, rfl, fun k => Function.update_of_ne ?_ _ _, fun _ h => h⟩
    rintro rfl
    exact hok k f rfl
  | validHeader _ => exact alike_latch w _ _ _
  | rxDone _ => exact alike_latch w _ _ _

theorem Kept.alike {w w' : World} (h : Kept w) (ha : Alike w w') : Kept w' := fun k hk => by
  rw [ha.stHandler, ha.live, ha.hmIdent, ha.frames]
  exact h k (ha.enqueued k hk)

variable (p : Platform)

theorem stable_of_alike {P : World → Prop} (h : ∀ w w', P w → Alike w w' → P w') :
    Stable (layer p) ct P := by
  rintro w w' hw ⟨e, hok, he⟩
  exact h w w' hw (event_alike hok he)

theorem kept_stable : Stable (layer p) ct Kept := stable_of_alike p fun _ _ => Kept.alike

/-- Calls that have nothing to do with the frames of the layer. -/
def Spares : Call → Prop
  | .setStHandler _ | .parseCredFile | .txQueuePushBack _ | .newFrame | .onFrame _ _
  | .writeFifo _ => False
  | _ => True

theorem exec_alike {o : Call} {ch : Choice} {w w' : World} {r : o.Res} (ho : Spares o)
    (hx : (layer p).exec o ch w = some (r, w')) : Alike w w' := by
  have hx : Call.exec p o ch w = some (r, w') := hx
  cases o with
  | setStHandler st => cases ho
  | parseCredFile => cases ho
  | txQueuePushBack d => cases ho
  | newFrame => cases ho
  | onFrame frm f => cases ho
  | writeFifo frm => cases ho
  | radio c =>
    obtain ⟨rd, m, b, rfl⟩ := exec_radio hx
    exact ⟨rfl, rfl, rfl, fun _ => rfl, fun _ h => h⟩
  | flagsWaitAny =>
    obtain ⟨_, hx⟩ := Option.ite_none_right_eq_some.mp hx
    cases hx
    exact ⟨rfl, rfl, rfl, fun _ => rfl, fun _ h => h⟩
  | strlen s =>
    obtain ⟨_, hx⟩ := Option.ite_none_right_eq_some.mp hx
    cases hx
    exact ⟨rfl, rfl, rfl, fun _ => rfl, fun _ h => h⟩
  | txQueueFront =>
    obtain ⟨_, _, hx⟩ := Option.map_eq_some_iff.mp hx
    cases hx
    exact ⟨rfl, rfl, rfl, fun _ => rfl, fun _ h => h⟩
  | txQueuePopFront =>
    obtain ⟨_, _, hx⟩ := Option.map_eq_some_iff.mp hx
    cases hx
    exact ⟨rfl, rfl, rfl, fun _ => rfl, fun _ h => h⟩
  | _ =>
    cases hx
    exact ⟨rfl, rfl, rfl, fun _ => rfl, fun _ h => h⟩

/-- The calls outside Initing and the button handler. -/
def Safe : Call → Prop
  | .setStHandler st => st ≠ .initing
  | .parseCredFile | .txQueuePushBack _ | .newFrame | .onFrame _ _ => False
  | _ => True

theorem spares_keeps {o : Call} (ho : Spares o) : Keeps (layer p) ct Kept o :=
  fun _ _ _ _ hw _ hx => hw.alike (exec_alike p ho hx)

theorem safe_keeps {o : Call} (ho : Safe o) : Keeps (layer p) ct Kept o := by
  cases o with
  | setStHandler st =>
    intro w ch r w' hw _ hx
    cases hx
    exact fun k hk => ⟨ho, (hw k hk).2⟩
  | writeFifo frm =>
    intro w ch r w' hw _ hx
    cases hx
    intro k hk
    obtain ⟨hst, hlive, hpressed⟩ := hw k hk
    refine ⟨hst, hlive, ?_⟩
    by_cases hfrm : .own k = frm
    · subst hfrm
      simp only [Function.update_self]
      exact hpressed.poke _
    · simp only [Function.update_of_ne hfrm]
      exact hpressed
  | parseCredFile => cases ho
  | txQueuePushBack d => cases ho
  | newFrame => cases ho
  | onFrame frm f => cases ho
  | _ => exact spares_keeps p (by trivial)

theorem pre_kept (o : Call) (w : World) (hw : Kept w) : ct.pre o w := hw

section Handlers
variable {p} {f : BitVec 32} {w : World}

theorem returned_kept {r : SmRet} (hw : Kept w) : Returned Kept (fun _ => Kept) r w := by
  unfold Returned
  split <;> exact hw

theorem wp_safe {q : LayerProg SmRet} (hq : q.Calls Safe) (hw : Kept w) :
    wp (layer p) ct q (Returned Kept fun _ => Kept) w :=
  wp_mono (fun _ _ h => returned_kept h)
    (wp_calls (kept_stable p) (fun o w hw _ => pre_kept o w hw) (fun _ => safe_keeps p) hq hw)

theorem calls_tran {st : St} (hst : st ≠ .initing) : (smTran st).Calls Safe :=
  ⟨hst, fun _ => trivial⟩

theorem calls_setting : (stSetting f).Calls Safe := by
  unfold stSetting
  repeat' first
    | exact calls_tran (by decide)
    | refine calls_perform trivial fun _ => ?_
    | split
    | trivial

theorem calls_rxing : (stRxing f).Calls Safe := by
  unfold stRxing
  repeat' first
    | exact calls_tran (by decide)
    | split
    | trivial

theorem calls_txing : (stTxing f).Calls Safe := by
  unfold stTxing
  repeat' first
    | exact calls_tran (by decide)
    | refine calls_perform trivial fun _ => ?_
    | split
    | trivial

/-- Initing, where no frame of the layer has been queued yet. -/
theorem handle_initing (hst : w.stHandler = .initing) (hw : Kept w) :
    wp (layer p) ct (stIniting p f) (Returned Kept fun _ => Kept) w := by
  have hs : Stable (layer p) ct fun w => ∀ k, .own k ∉ w.enqueued :=
    stable_of_alike p fun w w' h ha k hk => h k (ha.enqueued k hk)
  have hnone : ∀ k, .own k ∉ w.enqueued := fun k hk => (hw k hk).1 hst
  have kept_of_none : ∀ w : World, (∀ k, .own k ∉ w.enqueued) → Kept w :=
    fun w h k hk => absurd hk (h k)
  refine wp_stIniting hs (fun _ _ _ _ _ _ _ h => h)
    (fun o w h _ => pre_kept o w (kept_of_none w h)) hnone (fun w h => ?_) fun w h => ?_
  · exact wp_safe (calls_tran (by decide)) (kept_of_none w h)
  · exact wp_safe trivial (kept_of_none w h)

end Handlers

/-- The handler knows whose identity it is. -/
structure Serving (ident : HeyMacIdent) (w : World) : Prop where
  kept : Kept w
  lstning : w.stHandler = .lstning
  hmIdent : w.hmIdent = ident

/-- The handler's frame as far as it is made. -/
structure Making (ident : HeyMacIdent) (n : Nat) (g : HeyMacFrame) (w : World) : Prop where
  serving : Serving ident w
  live : n ∈ w.live
  fresh : .own n ∉ w.enqueued
  frame : w.frames (.own n) = g

section Button
variable {p} {ident : HeyMacIdent} {n : Nat} {g : HeyMacFrame} {w w' : World} {α : Type}
  {Q : α → World → Prop}

theorem Serving.alike (h : Serving ident w) (ha : Alike w w') : Serving ident w' :=
  ⟨h.kept.alike ha, ha.stHandler.trans h.lstning, ha.hmIdent.trans h.hmIdent⟩

theorem Making.alike (h : Making ident n g w) (ha : Alike w w') : Making ident n g w' :=
  ⟨h.serving.alike ha, ha.live ▸ h.live, fun hn => h.fresh (ha.enqueued n hn),
    (ha.frames n).trans h.frame⟩

theorem serving_stable : Stable (layer p) ct (Serving ident) :=
  stable_of_alike p fun _ _ => Serving.alike

theorem making_stable : Stable (layer p) ct (Making ident n g) :=
  stable_of_alike p fun _ _ => Making.alike

/-- The frame gets a number that none before it has. -/
theorem newFrame_making {ch : Choice} {frm : FrmRef} (h : Serving ident w)
    (hx : (layer p).exec .newFrame ch w = some (frm, w')) :
    ∃ n, frm = .own n ∧ Making ident n (HeyMacFrame.new ch.mem) w' := by
  have hx : Call.exec p .newFrame ch w = some (frm, w') := hx
  obtain ⟨_, hx⟩ := Option.ite_none_right_eq_some.mp hx
  cases hx
  have hnew : w.live.foldl max 0 + 1 ∉ w.live := fun hmem => by
    have hle := List.le_max_of_mem hmem
    have hfold : w.live.foldl max 0 = max 0 (w.live.max (List.ne_nil_of_mem hmem)) :=
      List.foldl_max_eq_max (List.ne_nil_of_mem hmem)
    omega
  have hne : ∀ k, .own k ∈ w.enqueued → k ≠ w.live.foldl max 0 + 1 := fun k hk hkn =>
    hnew (hkn ▸ (h.kept k hk).2.1)
  refine ⟨_, rfl, ⟨⟨fun k hk => ?_, h.lstning, h.hmIdent⟩, List.mem_append_right _ List.mem_cons_self,
    fun hk => hne _ hk rfl, Function.update_self _ _ _⟩⟩
  obtain ⟨hst, hlive, hpressed⟩ := h.kept k hk
  have hfrm : FrmRef.own k ≠ .own (w.live.foldl max 0 + 1) := fun hkn => by
    cases hkn
    exact hne _ hk rfl
  refine ⟨hst, List.mem_append_left _ hlive, ?_⟩
  simp only [Function.update_of_ne hfrm]
  exact hpressed

/-- The handler writes into its frame. -/
theorem wp_onFrame {fn : HeyMacFrame → HeyMacFrame} {k : Unit → LayerProg α}
    (hw : Making ident n g w)
    (h : ∀ w, Making ident n (fn g) w → wp (layer p) ct (k ()) Q w) :
    wp (layer p) ct (perform (.onFrame (.own n) fn) >>= k) Q w := by
  refine wp_perform making_stable hw (fun w hw => pre_kept _ w hw.serving.kept)
    fun w c r w' hw _ hx => ?_
  cases hx
  refine h _ ⟨⟨fun j hj => ?_, hw.serving.lstning, hw.serving.hmIdent⟩, hw.live, hw.fresh, ?_⟩
  · have hne : (FrmRef.own j) ≠ .own n := fun hjn => hw.fresh (hjn ▸ hj)
    simp only [Function.update_of_ne hne]
    exact hw.serving.kept j hj
  · simp only [Function.update_self, hw.frame]

/-- The handler queues its frame. -/
theorem wp_enqTxFrame (hw : Making ident n g w) (hg : Pressed ident g) :
    wp (layer p) ct (enqTxFrame (.own n) 0 >>= fun _ => pure SmRet.handled)
      (Returned Kept fun _ => Kept) w := by
  unfold enqTxFrame
  refine wp_bind (wp_perform making_stable hw (fun w hw => pre_kept _ w hw.serving.kept)
    fun w c r w' hw _ hx => ?_)
  cases hx
  have hkept : Kept { w.pushBack ⟨.own n, 0⟩ with making := w.making.erase n } := by
    intro k hk
    rcases List.mem_append.mp hk with hold | hnew
    · exact hw.serving.kept k hold
    · obtain rfl : k = n := by simpa using hnew
      refine ⟨fun hst => ?_, hw.live, ?_⟩
      · have hst : w.stHandler = .initing := hst
        rw [hw.serving.lstning] at hst
        cases hst
      · show Pressed w.hmIdent (w.frames (.own k))
        rw [hw.serving.hmIdent, hw.frame]
        exact hg
  refine wp_mono (fun _ w hw => ?_) (wp_calls (φ := Safe) (kept_stable p)
    (fun o w hw _ => pre_kept o w hw) (fun _ => safe_keeps p) ?_ hkept)
  · exact wp_safe trivial hw
  · split
    · exact ⟨trivial, fun _ => trivial⟩
    · trivial

/-- A call that leaves the frames of the layer alone. -/
theorem wp_spare {P : World → Prop} (hP : ∀ w w', P w → Alike w w' → P w')
    (hkept : ∀ w, P w → Kept w) {o : Call} {k : o.Res → LayerProg α} (ho : Spares o) (hw : P w)
    (h : ∀ c r w w', P w → P w' → Call.exec p o c w = some (r, w') →
      wp (layer p) ct (k r) Q w') : wp (layer p) ct (perform o >>= k) Q w :=
  wp_perform (stable_of_alike p hP) hw (fun w hw => hkept w hw) fun w c r w' hw _ hx =>
    h c r w w' hw (hP w w' hw (exec_alike p ho hx)) hx

/-- The frame is made step by step from what the handler finds. -/
theorem wp_onBtn (hw : Serving ident w) :
    wp (layer p) ct onBtn (Returned Kept fun _ => Kept) w := by
  have serving : ∀ w w', Serving ident w → Alike w w' → Serving ident w' :=
    fun _ _ => Serving.alike
  have making : ∀ n g w w', Making ident n g w → Alike w w' → Making ident n g w' :=
    fun _ _ _ _ => Making.alike
  unfold onBtn
  refine wp_spare serving (fun _ h => h.kept) trivial hw fun _ stack w w' _ hw _ => ?_
  refine wp_spare serving (fun _ h => h.kept) trivial hw fun _ tacId w w' hw hw' hx => ?_
  obtain rfl : tacId = ident.copyTacIdInto stack := by
    cases hx
    rw [hw.hmIdent]
  refine wp_perform serving_stable hw' (fun w hw => pre_kept _ w hw.kept)
    fun w c frm w' hw _ hx => ?_
  obtain ⟨n, rfl, hmade⟩ := newFrame_making hw hx
  refine wp_onFrame hmade fun w hmade => ?_
  refine wp_spare (making n _) (fun _ h => h.serving.kept) trivial hmade
    fun _ longAddr w w' hw hmade hx => ?_
  obtain rfl : longAddr = ident.getLongAddr := by
    cases hx
    rw [hw.serving.hmIdent]
  refine wp_onFrame hmade fun w hmade => ?_
  refine wp_spare (making n _) (fun _ h => h.serving.kept) trivial hmade
    fun _ len w w' _ hmade hx => ?_
  have hlen : Strlen (ident.copyTacIdInto stack) len := by
    obtain ⟨hnul, hx⟩ := Option.ite_none_right_eq_some.mp hx
    cases hx
    exact hnul
  refine wp_onFrame hmade fun w hmade => ?_
  refine wp_enqTxFrame hmade ⟨c.mem, stack, len, (btnFrame ident c.mem stack len).buf 0, hlen, ?_⟩
  rw [HeyMacFrame.poke, Function.update_eq_self]
  rfl

theorem handle_lstning {f : BitVec 32} (hst : w.stHandler = .lstning) (hw : Kept w) :
    wp (layer p) ct (stLstning f) (Returned Kept fun _ => Kept) w := by
  unfold stLstning
  split
  · refine wp_safe ?_ hw
    repeat refine calls_perform trivial fun _ => ?_
    trivial
  split
  · exact wp_safe ⟨trivial, fun _ => trivial⟩ hw
  split
  · exact wp_safe ⟨trivial, fun _ => calls_tran (by decide)⟩ hw
  split
  · exact wp_onBtn ⟨hw, hst, rfl⟩
  split
  · exact wp_safe (calls_tran (by decide)) hw
  · exact wp_safe trivial hw

end Button

theorem loopProof : LoopProof p ct (fun w => ∀ k, .own k ∉ w.enqueued) Kept fun _ => Kept where
  boot_stable := stable_of_alike p fun _ _ h ha k hk => h k (ha.enqueued k hk)
  idle_stable := kept_stable p
  busy_stable := fun _ => kept_stable p
  boot_pre := fun _ h k hk => absurd hk (h k)
  idle_pre := fun _ h => h
  busy_pre := fun _ _ h => ⟨h, h⟩
  noEnter := fun _ h => h.2
  fresh := fun w h k hk => by
    rw [h.enqueued] at hk
    cases hk
  boot := fun _ h k hk => absurd hk (h k)
  wait := fun _ h _ => h
  attach := fun _ _ h => h
  handle := fun st f w _ hst hw => by
    cases st with
    | initing => exact handle_initing hst hw
    | setting => exact wp_safe calls_setting hw
    | lstning => exact handle_lstning hst hw
    | rxing => exact wp_safe calls_rxing hw
    | txing => exact wp_safe calls_txing hw

/-- The handler's array starts as the tactical id does. -/
theorem holds_tacId {ident : HeyMacIdent} {stack : Mem} {s s₀ : List Octet}
    (h : Holds (ident.copyTacIdInto stack) s) (h₀ : Holds ident.tacId s₀) :
    s.take HeyMacIdent.ptrSz = s₀.take HeyMacIdent.ptrSz := by
  rcases Nat.lt_or_ge s₀.length HeyMacIdent.ptrSz with hlt | hge
  · have hwhole := (holds_strncpy_rest_iff stack h₀ HeyMacIdent.ptrSz).mpr (Or.inl hlt)
    rw [h.unique hwhole]
  · have hfull : HeyMacIdent.ptrSz ≤ s.length := by
      by_contra hs
      exact strncpy_full stack h₀ HeyMacIdent.ptrSz hge (Nat.not_le.mp hs) h.nul
    rw [← h.get_take hfull, ← h₀.get_take hge]
    apply get_congr
    intro i hi
    rw [Nat.zero_add, HeyMacIdent.copyTacIdInto, strncpy_char stack h₀, if_pos hi,
      h₀.char (by omega)]

/-- Runs on fixed inputs are tested by their environment's actions. -/
def unchanged (_ : LayerConfig) : Label Event Choice → Bool
  | .env (.changeFrame _ _) => false
  | _ => true

theorem unchanged_guard (c : LayerConfig) (l : Label Event Choice) (h : unchanged c l = true) :
    contract.guard c l := by
  cases l with
  | act ch => exact fun _ _ => trivial
  | env e =>
    rintro k f rfl
    cases h

/-- The next call loads the first frame of the layer, which has these octets. -/
def loadsOctets (bs : List Octet) (c : LayerConfig) : Bool :=
  match c.prog.nextOp with
  | some (.writeFifo (.own 1)) => LayerQueue.frmOctets (c.world.frames (.own 1)) == bs
  | _ => false

end LayerButton
