import HeyMacMbed.Cmd
import HeyMacMbed.FrameParse
import HeyMacMbed.FrameRoundTrip

/-!
# A command at its receiver

A command made on a frame without a payload starts at `_frm[1]`, so its first octet
goes on air as FCTL. Both command octets are flags of frames that `parse` accepts:
the receiver takes the end of a text for Hops, with two octets from behind it as
TxAddr, and the capabilities of a beacon for SrcAddr.
-/

open Bits Octets HeyMacFrame

namespace HeyMacCmd

section Over
variable {f : HeyMacFrame} {pidfld : HmPidfld} {h : Header} (b : Opened f pidfld h) (cid : Octet)
  (args : List Octet)

theorem overFctl_frm (bs : List Octet) : (overFctl f bs).frm = put f.frm frmIdxFctl bs :=
  frm_putFrm f frmIdxFctl bs

theorem overFctl_fctl : (overFctl f (cid :: args)).fctl = cid := by
  have hget := get_put_same f.frm frmIdxFctl (cid :: args)
  rw [← overFctl_frm, List.length_cons, Octets.get, List.cons.injEq] at hget
  exact hget.1

theorem overFctl_args : get (overFctl f (cid :: args)).frm 2 args.length = args := by
  have hget := get_put_same f.frm frmIdxFctl (cid :: args)
  rw [← overFctl_frm, List.length_cons, Octets.get, List.cons.injEq] at hget
  exact hget.2

theorem overFctl_behind {i : Nat} (hi : args.length + 2 ≤ i) :
    (overFctl f (cid :: args)).frm i = f.frm i := by
  rw [overFctl_frm, put_outside]
  simp only [frmIdxFctl, List.length_cons]
  omega

include b

theorem overFctl_pid : (overFctl f (cid :: args)).frm frmIdxPid = pidfld.code := by
  rw [overFctl_frm, put_outside _ _ _ _ (Or.inl (by decide)), b.pid]

/-- The size counts the command's octets, and the multihop fields its first one asks for. -/
theorem overFctl_getFrmSz : (overFctl f (cid :: args)).getFrmSz.toNat =
    (args.length + 1) % 256 + mhopLen cid := by
  have hrx : (overFctl f (cid :: args)).rxdSz = 0 := b.rxdSz
  have hpo : (overFctl f (cid :: args)).payldOffset = 0 := b.payldOffset
  have hmic : (overFctl f (cid :: args)).micSz = 0 := b.micSz
  have hps : (overFctl f (cid :: args)).payldSz = BitVec.ofNat 8 (args.length + 1) := rfl
  have hm := mhopSz_toNat cid
  have hle := mhopLen_le cid
  have h0 : (0 : Octet).toNat = 0 := rfl
  simp only [HeyMacFrame.getFrmSz, hrx, hpo, hmic, hps, overFctl_fctl, hm, ne_eq,
    not_true_eq_false, if_false, BitVec.toNat_ofNat, h0]
  omega

end Over

section Receiving
variable {g r : HeyMacFrame} (hr : IsReceived r g)
include hr

/-- A receiver accepts by the flags it finds and by the 8 bits of the size. -/
theorem received_iff (hpid : g.frm frmIdxPid = HmPidfld.csmaV0.code) (h2 : 2 ≤ g.getFrmSz.toNat) :
    r.parse.1 = true ↔ payldPos g.fctl + mhopLen g.fctl < g.getFrmSz.toNat % 256 := by
  obtain ⟨rxBuf, rfl, hrx⟩ := hr
  have hn : (g.getFrmSz.setWidth 8).toNat = g.getFrmSz.toNat % 256 := BitVec.toNat_setWidth 8 _
  have hc : rxBuf (sFrameStart + frmIdxFctl) = g.fctl := hrx _ (show 1 < _ by omega)
  have hp : rxBuf (sFrameStart + frmIdxPid) = HmPidfld.csmaV0.code :=
    (hrx _ (show 0 < _ by omega)).trans hpid
  rw [← hn]
  constructor
  · intro hacc
    have hlt := ((parse_ofBuf _ _ (pos_of_accepted _ _ hacc)).mp hacc).2
    rwa [hc] at hlt
  · intro hlt
    refine (parse_ofBuf _ _ (by omega)).mpr ⟨hp, ?_⟩
    rwa [hc]

/-- An accepted message starts behind the header of the flags and ends with the frame. -/
theorem received_message (hle : g.getFrmSz.toNat ≤ 255) (hacc : r.parse.1 = true) :
    readMessage r.parse.2.frm r.parse.2.payldSz.toNat =
      readMessage g.frm (g.getFrmSz.toNat - mhopLen g.fctl - payldPos g.fctl) := by
  obtain ⟨rxBuf, rfl, hrx⟩ := hr
  have hn : (g.getFrmSz.setWidth 8).toNat = g.getFrmSz.toNat := by
    rw [BitVec.toNat_setWidth]
    exact Nat.mod_eq_of_lt (by omega)
  have hlt := ((parse_ofBuf _ _ (pos_of_accepted _ _ hacc)).mp hacc).2
  have hpos := payldPos_two (rxBuf (sFrameStart + frmIdxFctl))
  rw [hn] at hlt
  have hc : rxBuf (sFrameStart + frmIdxFctl) = g.fctl := hrx _ (show 1 < _ by omega)
  have hend := parse_accepted _ _ hacc
  rw [hc] at hlt hpos
  rw [hc, hn] at hend
  have hsz : (ofBuf rxBuf (g.getFrmSz.setWidth 8)).parse.2.payldSz.toNat =
      g.getFrmSz.toNat - mhopLen g.fctl - payldPos g.fctl := by
    rw [hend]
    exact Nat.mod_eq_of_lt (by omega)
  have hfrm : ∀ i, i < g.getFrmSz.toNat →
      (ofBuf rxBuf (g.getFrmSz.setWidth 8)).parse.2.frm i = g.frm i := fun i hi => by
    rw [hend]
    exact hrx i hi
  rw [hsz]
  refine readMessage_congr (hfrm _ (show 1 < _ by omega)) fun i _ hi => hfrm i ?_
  have hi : i < payldPos g.fctl + (g.getFrmSz.toNat - mhopLen g.fctl - payldPos g.fctl) +
      mhopLen g.fctl := hi
  omega

end Receiving

/-- The message a receiver is to make of a text `s` that ends in `c` on the frame `f`. -/
def txtMessage (f : HeyMacFrame) (s : List Octet) (c : Octet) : Message :=
  ⟨⟨none, none, none⟩, s, some (c, .short (ofBe 16 (get f.frm (s.length + 3) 2)))⟩

/-- The flags of a text command: pending, multihop with short addresses, extended. -/
theorem readMessage_txt (f : HeyMacFrame) (s : List Octet) (c : Octet) :
    readMessage (overFctl f (0x83 :: (s ++ [c]))).frm s.length = txtMessage f s c := by
  have hc : (overFctl f (0x83 :: (s ++ [c]))).frm frmIdxFctl = 0x83 := overFctl_fctl _ _
  have hargs := overFctl_args (f := f) 0x83 (s ++ [c])
  rw [List.length_append, List.length_singleton, get_snoc] at hargs
  obtain ⟨htext, hlast⟩ := List.append_inj hargs (get_length _ _ _)
  have hbehind : get (overFctl f (0x83 :: (s ++ [c]))).frm (2 + s.length + 1) 2 =
      get f.frm (s.length + 3) 2 := by
    apply get_congr
    intro k _
    rw [overFctl_behind _ _ (by rw [List.length_append, List.length_singleton]; omega)]
    congr 1
    omega
  have hflags : has (0x83 : Octet) fctlBitN = false ∧ has (0x83 : Octet) fctlBitD = false ∧
      has (0x83 : Octet) fctlBitS = false ∧ has (0x83 : Octet) fctlBitM = true ∧
      has (0x83 : Octet) fctlBitL = false ∧ payldPos 0x83 = 2 := by decide
  obtain ⟨hN, hD, hS, hM, hL, hpos⟩ := hflags
  simp only [readMessage, readHeader, txtMessage, hc, hN, hD, hS, hM, hL, hpos, htext,
    List.cons.inj hlast, Addr.read, hbehind, if_true, Bool.false_eq_true, if_false]

/-- The flags of a beacon: a short SrcAddr, extended. -/
theorem readMessage_cbcn (f : HeyMacFrame) (caps status : BitVec 16) :
    readMessage (overFctl f (cbcnOctets caps status)).frm 1 =
      ⟨⟨none, none, some (.short caps)⟩, [(status >>> 8).setWidth 8], none⟩ := by
  have hc : (overFctl f (cbcnOctets caps status)).frm frmIdxFctl = 0x84 := overFctl_fctl _ _
  have hargs := overFctl_args (f := f) 0x84 (be caps 2 ++ be status 2)
  have hcbcn : cbcnOctets caps status = 0x84 :: (be caps 2 ++ be status 2) := by
    simp [cbcnOctets, be, and_ff]
  have hflags : has (0x84 : Octet) fctlBitN = false ∧ has (0x84 : Octet) fctlBitD = false ∧
      has (0x84 : Octet) fctlBitS = true ∧ has (0x84 : Octet) fctlBitM = false ∧
      has (0x84 : Octet) fctlBitL = false ∧ srcPos 0x84 = 2 ∧ payldPos 0x84 = 4 := by decide
  obtain ⟨hN, hD, hS, hM, hL, hsrc, hpos⟩ := hflags
  rw [← hcbcn] at hargs
  have hcaps : get (overFctl f (cbcnOctets caps status)).frm 2 2 = be caps 2 := by
    exact congrArg (List.take 2) hargs
  have hstatus : get (overFctl f (cbcnOctets caps status)).frm 4 1 =
      [(status >>> 8).setWidth 8] := congrArg (fun bs => (bs.drop 2).take 1) hargs
  simp only [readMessage, readHeader, hc, hN, hD, hS, hM, hL, hsrc, hpos, Addr.read, hcaps,
    hstatus, ofBe_be caps (show 16 ≤ 8 * 2 by decide), if_true, Bool.false_eq_true, if_false]

section Received
variable {f r : HeyMacFrame} {h : Header} (b : Opened f .csmaV0 h)
include b

theorem txt_received {s : List Octet} (hlen : s.length ≤ 255)
    (hr : IsReceived r (overFctl f (0x83 :: s))) :
    (r.parse.1 = true ↔ 2 ≤ s.length ∧ s.length ≤ 251) ∧
      ∀ t c, s = t ++ [c] → r.parse.1 = true →
        readMessage r.parse.2.frm r.parse.2.payldSz.toNat = txtMessage f t c := by
  have hsz := overFctl_getFrmSz b 0x83 s
  have hflags : payldPos 0x83 = 2 ∧ mhopLen 0x83 = 3 := by decide
  obtain ⟨hpos, hmhop⟩ := hflags
  have hiff := received_iff hr (overFctl_pid b 0x83 s) (by omega)
  rw [overFctl_fctl, hpos, hmhop, hsz, hmhop] at hiff
  have hacc : r.parse.1 = true ↔ 2 ≤ s.length ∧ s.length ≤ 251 := by
    rw [hiff]
    omega
  refine ⟨hacc, fun t c hs hp => ?_⟩
  have hbound := hacc.mp hp
  have hmsg := received_message hr (by omega) hp
  have hend : (overFctl f (0x83 :: s)).getFrmSz.toNat - 3 - 2 = t.length := by
    have hst := congrArg List.length hs
    rw [List.length_append, List.length_singleton] at hst
    omega
  rw [overFctl_fctl, hpos, hmhop, hend] at hmsg
  rw [hmsg, hs]
  exact readMessage_txt f t c

theorem cbcn_received {caps status : BitVec 16}
    (hr : IsReceived r (overFctl f (cbcnOctets caps status))) :
    r.parse.1 = true ∧ readMessage r.parse.2.frm r.parse.2.payldSz.toNat =
      ⟨⟨none, none, some (.short caps)⟩, [(status >>> 8).setWidth 8], none⟩ := by
  have hpid := overFctl_pid b 0x84 (cbcnOctets caps status).tail
  have hsz := overFctl_getFrmSz b 0x84 (cbcnOctets caps status).tail
  have hc : (overFctl f (cbcnOctets caps status)).fctl = 0x84 := overFctl_fctl _ _
  have hflags : payldPos 0x84 = 4 ∧ mhopLen 0x84 = 0 := by decide
  obtain ⟨hpos, hmhop⟩ := hflags
  have hfive : (overFctl f (cbcnOctets caps status)).getFrmSz.toNat = 5 := by
    rw [hmhop] at hsz
    exact hsz
  have hiff := received_iff hr hpid (by omega)
  rw [hc, hpos, hmhop, hfive] at hiff
  have hacc := hiff.mpr (by decide)
  have hmsg := received_message hr (by omega) hacc
  rw [hc, hpos, hmhop, hfive] at hmsg
  exact ⟨hacc, hmsg.trans (readMessage_cbcn f caps status)⟩

end Received

/-- What a receiver makes of the commands on a frame without a payload, whatever its
header. A text is refused unless it has from 2 to 251 octets, and loses its last one to
Hops; a beacon always comes through, as one octet of its status from the address of its
capabilities. -/
theorem cmd_received (buf : Mem) (h : Header) (txt : Mem) (sz : Octet) (caps status : BitVec 16) :
    (∀ r, IsReceived r (cmdTxt (buildHeader buf h) txt sz).2 →
      (r.parse.1 = true ↔ 2 ≤ sz.toNat ∧ sz.toNat ≤ 251) ∧
      (r.parse.1 = true → readMessage r.parse.2.frm r.parse.2.payldSz.toNat =
        txtMessage (buildHeader buf h) (get txt 0 (sz.toNat - 1)) (txt (sz.toNat - 1)))) ∧
    ∀ r, IsReceived r (cmdCbcn (buildHeader buf h) caps status).2 →
      r.parse.1 = true ∧ readMessage r.parse.2.frm r.parse.2.payldSz.toNat =
        ⟨⟨none, none, some (.short caps)⟩, [(status >>> 8).setWidth 8], none⟩ := by
  have b : Opened (buildHeader buf h) .csmaV0 h := startHeader_opened buf .csmaV0 h
  have hempty := opened_getFrmSz b
  refine ⟨fun r hr => ?_, fun r hr => ?_⟩
  · rw [cmdTxt_empty hempty] at hr
    have hlt := sz.isLt
    have hlen := get_length txt 0 sz.toNat
    obtain ⟨hacc, hmsg⟩ := txt_received b (by omega) hr
    rw [hlen] at hacc
    refine ⟨hacc, fun hp => hmsg _ _ ?_ hp⟩
    have hpos := hacc.mp hp
    have hsnoc := get_snoc txt 0 (sz.toNat - 1)
    rwa [Nat.sub_add_cancel (by omega), Nat.zero_add] at hsnoc
  · rw [cmdCbcn_empty hempty] at hr
    exact cbcn_received b hr

theorem received_inPlace (f : HeyMacFrame) :
    IsReceived (ofBuf f.buf (f.getFrmSz.setWidth 8)) f := ⟨f.buf, rfl, fun _ _ => rfl⟩

/-- The text "KC4" and the beacon of the layer, on a frame with a long source address. -/
theorem cmd_received_long :
    let f := buildHeader (fun _ => 0) ⟨none, none, some (.long 0x17161514131211FD)⟩
    let txt := (cmdTxt f (fun i => [0x4B, 0x43, 0x34].getD i 0) 3).2
    let cbcn := (cmdCbcn f 0xCA 0).2
    let r := (ofBuf txt.buf (txt.getFrmSz.setWidth 8)).parse
    let q := (ofBuf cbcn.buf (cbcn.getFrmSz.setWidth 8)).parse
    r.1 = true ∧ readMessage r.2.frm r.2.payldSz.toNat =
        ⟨⟨none, none, none⟩, [0x4B, 0x43], some (0x34, .short 0x1413)⟩ ∧
      q.1 = true ∧ readMessage q.2.frm q.2.payldSz.toNat =
        ⟨⟨none, none, some (.short 0xCA)⟩, [0], none⟩ := by
  intro f txt cbcn r q
  obtain ⟨htxt, hcbcn⟩ := cmd_received (fun _ => 0) ⟨none, none, some (.long 0x17161514131211FD)⟩
    (fun i => [0x4B, 0x43, 0x34].getD i 0) 3 0xCA 0
  obtain ⟨hacc, hmsg⟩ := htxt _ (received_inPlace txt)
  have hr : r.1 = true := hacc.mpr (by decide)
  exact ⟨hr, (hmsg hr).trans (by decide), hcbcn _ (received_inPlace cbcn)⟩

end HeyMacCmd
