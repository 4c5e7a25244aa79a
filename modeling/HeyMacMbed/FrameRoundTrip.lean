import HeyMacMbed.FrameSizes

/-!
# What is built is parsed

A complete frame spells one message under its own flags; the parser accepts
every such frame and recovers the sender's offsets, so the receiver reads the
same message.
-/

open Bits Octets

namespace HeyMacFrame

/-- The documented order of calls: the header setters, `set_payld`, and
`set_mhop` if wanted. `none` if one of the two returned false. -/
def build (buf : Mem) (h : Header) (payld : Mem) (sz : Octet) (mhop : Option (Octet × Addr)) :
    Option HeyMacFrame :=
  match (buildHeader buf h).setPayld payld sz, mhop with
  | (false, _), _ => none
  | (true, f), none => some f
  | (true, f), some (hops, txAddr) =>
    match f.setMhop hops txAddr with
    | (false, _) => none
    | (true, f) => some f

/-- What holds of a frame whose payload has been set. -/
structure Complete (f : HeyMacFrame) (msg : Message) : Prop where
  message : readMessage f.frm f.payldSz.toNat = msg
  pid : f.frm frmIdxPid = HmPidfld.csmaV0.code
  offset : f.payldOffset = payldOffsetOf f.fctl
  micSz : f.micSz = 0
  rxdSz : f.rxdSz = 0
  room : payldPos f.fctl + f.payldSz.toNat < hmFrameSz

theorem Complete.sized {f : HeyMacFrame} {msg : Message} (c : Complete f msg) : Sized f :=
  ⟨c.offset, c.micSz, c.rxdSz, c.room⟩

/-- Hops and TxAddr are read where `set_mhop` puts them, the rest as before. -/
theorem MhopSet.message {f f' : HeyMacFrame} {hops : Octet} {a : Addr}
    (p : MhopSet f hops a f') (hparts : f.partsSz = payldPos f.fctl + f.payldSz.toNat) :
    readMessage f'.frm f'.payldSz.toNat =
      { readMessage f.frm f.payldSz.toNat with mhop := some (hops, a) } := by
  have h2 := payldPos_two f.fctl
  have e := sameFields_multihop f.fctl
  have hc : f'.frm frmIdxFctl = f.fctl ||| fctlBitM := p.fctl
  have hM : has (f.fctl ||| fctlBitM) fctlBitM = true := by
    rw [has_or, show has fctlBitM fctlBitM = true by decide, Bool.or_true]
  have hsz := p.payldSz
  have hget : get f'.frm f.partsSz (1 + a.octets.length) = hops :: a.octets := by
    have hstored := store_get f (hops :: a.octets) (f.fctl ||| fctlBitM)
      (show 2 ≤ f.partsSz by omega)
    rw [← p.store, List.length_cons, Nat.add_comm] at hstored
    exact hstored
  rw [Nat.add_comm, Octets.get, List.cons.injEq] at hget
  ext1
  · exact readHeader_congr (by rw [hc]; exact e) fun i hlo (hi : i < payldPos f.fctl) =>
      p.before (by simp only [frmIdxFctl]; omega) (by omega)
  · simp only [readMessage, hc, hsz, e.payldPos]
    exact get_congr fun k hk => p.before (by simp only [frmIdxFctl]; omega) (by
      have : payldPos f.fctl + k < f.partsSz := by omega
      exact this)
  · simp only [readMessage, hc, hsz, e.payldPos, e.long, ← hparts, p.width, hM, if_true,
      hget.1, Addr.read_of_get hget.2]

/-- The multihop setter appends its fields to a complete frame. -/
theorem Complete.setMhop {f f' : HeyMacFrame} {h : Header} {p : List Octet}
    (c : Complete f ⟨h, p, none⟩) {hops : Octet} {t : Addr} (m : MhopSet f hops t f') :
    Complete f' ⟨h, p, some (hops, t)⟩ ∧ f'.payldSz = f.payldSz := by
  have s := c.sized.setMhop m
  have hpid : f'.frm frmIdxPid = f.frm frmIdxPid :=
    m.before (by decide) (show 0 < _ by have := partsSz_two c.sized.offset; omega)
  refine ⟨⟨?_, ?_, s.offset, s.micSz, s.rxdSz, s.room⟩, ?_⟩
  · rw [m.message c.sized.partsSz, c.message]
  · rw [hpid, c.pid]
  · exact m.payldSz

/-- How a build succeeds: up to the payload, then perhaps with Hops and TxAddr. -/
theorem build_cases {buf : Mem} {h : Header} {payld : Mem} {sz : Octet}
    {mhop : Option (Octet × Addr)} {f : HeyMacFrame} (hb : build buf h payld sz mhop = some f) :
    ∃ g, Loaded g .csmaV0 h payld sz ∧
      ((mhop = none ∧ f = g) ∨ ∃ hops a, mhop = some (hops, a) ∧ MhopSet g hops a f) := by
  have opened : Opened (buildHeader buf h) .csmaV0 h := startHeader_opened buf .csmaV0 h
  rcases hset : (buildHeader buf h).setPayld payld sz with ⟨_ | _, g⟩
  · simp only [build, hset] at hb
    cases hb
  · have loaded := opened.setPayld hset
    refine ⟨g, loaded, ?_⟩
    cases mhop with
    | none =>
      simp only [build, hset, Option.some.injEq] at hb
      exact Or.inl ⟨rfl, hb.symm⟩
    | some p =>
      obtain ⟨hops, a⟩ := p
      rcases hset' : g.setMhop hops a with ⟨_ | _, k⟩
      · simp only [build, hset, hset'] at hb
        cases hb
      · simp only [build, hset, hset', Option.some.injEq] at hb
        subst hb
        exact Or.inr ⟨hops, a, rfl, setMhop_true (partsSz_two loaded.sized.offset) hset'⟩

theorem Loaded.complete {f : HeyMacFrame} {h : Header} {payld : Mem} {sz : Octet}
    (l : Loaded f .csmaV0 h payld sz) (hw : h.OneWidth) :
    Complete f ⟨h, get payld 0 sz.toNat, none⟩ :=
  ⟨l.message hw, l.pid, l.sized.offset, l.sized.micSz, l.sized.rxdSz, l.sized.room⟩

/-- Every frame built in the documented order spells what its setters were given. -/
theorem build_complete {buf : Mem} {h : Header} {payld : Mem} {sz : Octet}
    {mhop : Option (Octet × Addr)} {f : HeyMacFrame} (hw : h.OneWidth)
    (hb : build buf h payld sz mhop = some f) :
    Complete f ⟨h, get payld 0 sz.toNat, mhop⟩ ∧ f.payldSz = sz := by
  obtain ⟨g, loaded, ⟨rfl, rfl⟩ | ⟨hops, a, rfl, m⟩⟩ := build_cases hb
  · exact ⟨loaded.complete hw, loaded.payldSz⟩
  · obtain ⟨hf, hsz⟩ := (loaded.complete hw).setMhop m
    exact ⟨hf, hsz.trans loaded.payldSz⟩

/-- The receiving frame of the octets of `f`, given its size in the constructor's 8 bits. -/
def IsReceived (r f : HeyMacFrame) : Prop :=
  ∃ rxBuf : Mem, r = ofBuf rxBuf (f.getFrmSz.setWidth 8) ∧
    ∀ i, i < f.getFrmSz.toNat → rxBuf (sFrameStart + i) = f.frm i

/-- A receiver given a frame whose size is the end of its message parses it and reads that
message. -/
theorem received_of_size {f : HeyMacFrame} (pid : f.frm frmIdxPid = HmPidfld.csmaV0.code)
    (offset : f.payldOffset = payldOffsetOf f.fctl)
    (hlen : f.getFrmSz.toNat = payldPos f.fctl + f.payldSz.toNat + mhopLen f.fctl)
    (hsz : 1 ≤ f.payldSz.toNat) (hle : f.getFrmSz.toNat ≤ 255) {r : HeyMacFrame}
    (hr : IsReceived r f) :
    r.parse.1 = true ∧ r.parse.2.payldOffset = f.payldOffset ∧
      r.parse.2.payldSz = f.payldSz ∧ r.parse.2.getFrmSz = f.getFrmSz ∧
      readMessage r.parse.2.frm r.parse.2.payldSz.toNat =
        readMessage f.frm f.payldSz.toNat := by
  obtain ⟨rxBuf, rfl, hrx⟩ := hr
  have h2 := payldPos_two f.fctl
  have hn : (f.getFrmSz.setWidth 8).toNat = f.getFrmSz.toNat := by
    rw [BitVec.toNat_setWidth]
    exact Nat.mod_eq_of_lt (by omega)
  have hne : f.getFrmSz.setWidth 8 ≠ 0 := by
    intro h0
    rw [h0] at hn
    simp only [BitVec.ofNat_eq_ofNat, BitVec.toNat_ofNat] at hn
    omega
  generalize hr : ofBuf rxBuf (f.getFrmSz.setWidth 8) = r
  rw [ofBuf, if_neg hne] at hr
  have hfrm : ∀ i, i < f.getFrmSz.toNat → r.frm i = f.frm i := fun i hi => by
    rw [← hr]
    exact hrx i hi
  have hc : r.fctl = f.fctl := hfrm frmIdxFctl (show 1 < _ by omega)
  have hpid : r.validateFields = true := by
    rw [validateFields, hfrm frmIdxPid (show 0 < _ by omega), pid]
    exact beq_self_eq_true _
  have hrxd : r.rxdSz = f.getFrmSz.setWidth 8 := by rw [← hr]
  have hmic : r.micSz = 0 := by rw [← hr]
  have hparse := parse_eq r hmic
  rw [hc, hrxd, hn, if_pos (by omega), hpid] at hparse
  have hpsz : BitVec.ofNat 8 (f.getFrmSz.toNat - mhopLen f.fctl - payldPos f.fctl) =
      f.payldSz := by
    rw [show f.getFrmSz.toNat - mhopLen f.fctl - payldPos f.fctl = f.payldSz.toNat by omega]
    simp
  rw [hpsz] at hparse
  refine ⟨by rw [hparse], by rw [hparse, offset], by rw [hparse], ?_, ?_⟩
  · apply BitVec.eq_of_toNat_eq
    rw [hparse, HeyMacFrame.getFrmSz, if_pos hne, BitVec.toNat_setWidth, hn]
    omega
  · have hsame : r.parse.2.frm = r.frm := by rw [hparse]; rfl
    have hpay : r.parse.2.payldSz = f.payldSz := by rw [hparse]
    rw [hsame, hpay]
    exact readMessage_congr hc fun i _ hi => hfrm i (by
      have hi : i < payldPos f.fctl + f.payldSz.toNat + mhopLen f.fctl := hi
      omega)

/-- A receiver given a complete frame parses it and reads the sender's message. -/
theorem Complete.received {f : HeyMacFrame} {msg : Message} (c : Complete f msg)
    (hsz : 1 ≤ f.payldSz.toNat) (hle : f.getFrmSz.toNat ≤ 255) {r : HeyMacFrame}
    (hr : IsReceived r f) :
    r.parse.1 = true ∧ r.parse.2.payldOffset = f.payldOffset ∧
      r.parse.2.payldSz = f.payldSz ∧ r.parse.2.getFrmSz = f.getFrmSz ∧
      readMessage r.parse.2.frm r.parse.2.payldSz.toNat = msg := by
  rw [← c.message]
  exact received_of_size c.pid c.offset c.sized.getFrmSz hsz hle hr

/-- A frame built in the documented order is parsed by its receiver, which
recovers the sender's offsets and reads exactly what the setters were given. -/
theorem parse_build (buf : Mem) (h : Header) (payld : Mem) (sz : Octet)
    (mhop : Option (Octet × Addr)) (f : HeyMacFrame) (hw : h.OneWidth) (hsz : 1 ≤ sz.toNat)
    (hb : build buf h payld sz mhop = some f) (hle : f.getFrmSz.toNat ≤ 255)
    (r : HeyMacFrame) (hr : IsReceived r f) :
    r.parse.1 = true ∧ r.parse.2.payldOffset = f.payldOffset ∧
      r.parse.2.payldSz = f.payldSz ∧ r.parse.2.getFrmSz = f.getFrmSz ∧
      readMessage r.parse.2.frm r.parse.2.payldSz.toNat = ⟨h, get payld 0 sz.toNat, mhop⟩ := by
  obtain ⟨c, hpsz⟩ := build_complete hw hb
  exact c.received (by rw [hpsz]; exact hsz) hle hr

/-- A long-addressed multihop frame of three payload octets, received in place. -/
theorem parse_build_long :
    let h : Header := ⟨some 0x1234, some (.long 0xFD11121314151617), some (.long 7)⟩
    let f := (build (fun _ => 0xAA) h (BitVec.ofNat 8) 3 (some (5, .long 9))).get (by decide)
    let r := (ofBuf f.buf (f.getFrmSz.setWidth 8)).parse
    r.1 = true ∧ readMessage r.2.frm r.2.payldSz.toNat = ⟨h, [0, 1, 2], some (5, .long 9)⟩ := by
  intro h f r
  have hb : build (fun _ => 0xAA) h (BitVec.ofNat 8) 3 (some (5, .long 9)) = some f :=
    (Option.some_get _).symm
  have hw : h.OneWidth := by
    intro d hd s hs
    cases hd
    cases hs
    rfl
  have hall := parse_build _ h _ 3 _ f hw (by decide) hb (by decide)
    (ofBuf f.buf (f.getFrmSz.setWidth 8)) ⟨f.buf, rfl, fun _ _ => rfl⟩
  exact ⟨hall.1, hall.2.2.2.2⟩

end HeyMacFrame
