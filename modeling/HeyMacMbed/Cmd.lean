import HeyMacMbed.FrameBuild

/-!
# Commands

`cmd_txt` and `cmd_cbcn` write a command into the payload of the frame given to
`cmd_init`. They take the payload's place from `get_frm() + get_frm_sz()`; on a
frame without a payload that size is 0 and the place is `_frm[1]`, so the
command never lands where `set_payld` would put it.
-/

open Bits Octets HeyMacFrame

namespace HeyMacCmd

def hmCidTxt : Octet := 3
def hmCidCbcn : Octet := 4

def cmdIdx : Nat := 0
def cmdPrefix : Octet := 0x80

/-- The stores `payld[0] = ..., payld[1] = ..., ...` behind `get_frm() + offset`. -/
def putCmd (f : HeyMacFrame) (offset : BitVec 16) (bs : List Octet) : HeyMacFrame :=
  { f with buf := put f.buf (getFrm + offset.toNat + cmdIdx) bs }

def cmdTxt (f : HeyMacFrame) (txt : Mem) (sz : Octet) : Bool × HeyMacFrame :=
  let offset := f.getFrmSz
  if offset.toNat + 1 + sz.toNat ≤ hmFrameSz then
    let f := putCmd f offset ((cmdPrefix ||| hmCidTxt) :: get txt 0 sz.toNat)
    (true, f.setPayldSz (BitVec.ofNat 8 (1 + sz.toNat)))
  else (false, f)

def cmdCbcn (f : HeyMacFrame) (caps status : BitVec 16) : Bool × HeyMacFrame :=
  let offset := f.getFrmSz
  if offset.toNat + 1 + 4 ≤ hmFrameSz then
    let f := putCmd f offset [cmdPrefix ||| hmCidCbcn,
      (caps >>> 8).setWidth 8, (caps &&& 0xFF).setWidth 8,
      (status >>> 8).setWidth 8, (status &&& 0xFF).setWidth 8]
    (true, f.setPayldSz (BitVec.ofNat 8 (1 + 4)))
  else (false, f)

/-- The plain path for the octets `bs`: `set_payld`, whose size is 8 bits wide,
and false for more octets than that. -/
def plainPayld (f : HeyMacFrame) (bs : List Octet) : Bool × HeyMacFrame :=
  if bs.length ≤ 255 then f.setPayld (bs.getD · 0) (BitVec.ofNat 8 bs.length) else (false, f)

def txtOctets (txt : Mem) (sz : Octet) : List Octet := 0x83 :: get txt 0 sz.toNat

def cbcnOctets (caps status : BitVec 16) : List Octet :=
  [0x84, (caps >>> 8).setWidth 8, (caps &&& 0xFF).setWidth 8,
    (status >>> 8).setWidth 8, (status &&& 0xFF).setWidth 8]

/-- A command's outcome on `f` is that of the plain path. -/
structure SameResult (f : HeyMacFrame) (cmd plain : Bool × HeyMacFrame) : Prop where
  success : cmd.1 = plain.1
  octets : cmd.1 = true → ∀ i, i < plain.2.getFrmSz.toNat → cmd.2.frm i = plain.2.frm i
  payldOffset : cmd.1 = true → cmd.2.payldOffset = plain.2.payldOffset
  payldSz : cmd.1 = true → cmd.2.payldSz = plain.2.payldSz
  frmSz : cmd.1 = true → cmd.2.getFrmSz = plain.2.getFrmSz
  unchanged : cmd.1 = false → cmd.2 = f

/-- The frame with the octets of a command from FCTL on. -/
def overFctl (f : HeyMacFrame) (bs : List Octet) : HeyMacFrame :=
  (f.putFrm frmIdxFctl bs).setPayldSz (BitVec.ofNat 8 bs.length)

/-- A header without a payload has size 0. -/
theorem opened_getFrmSz {f : HeyMacFrame} {pidfld : HmPidfld} {h : Header}
    (b : Opened f pidfld h) : f.getFrmSz = 0#16 := by
  simp [HeyMacFrame.getFrmSz, b.rxdSz, b.payldOffset, b.payldSz, b.micSz, b.flags.multihop]

theorem txtOctets_length (txt : Mem) (sz : Octet) : (txtOctets txt sz).length = sz.toNat + 1 := by
  rw [txtOctets, List.length_cons, get_length]

theorem cmdTxt_empty {f : HeyMacFrame} (hf : f.getFrmSz = 0#16) (txt : Mem) (sz : Octet) :
    cmdTxt f txt sz = (true, overFctl f (txtOctets txt sz)) := by
  have hroom : f.getFrmSz.toNat + 1 + sz.toNat ≤ hmFrameSz := by
    have hlt := sz.isLt
    rw [hf]
    simp only [hmFrameSz, BitVec.toNat_ofNat]
    omega
  simp only [cmdTxt, if_pos hroom]
  rw [overFctl, txtOctets_length, Nat.add_comm sz.toNat 1, hf]
  rfl

theorem cmdCbcn_empty {f : HeyMacFrame} (hf : f.getFrmSz = 0#16) (caps status : BitVec 16) :
    cmdCbcn f caps status = (true, overFctl f (cbcnOctets caps status)) := by
  have hroom : f.getFrmSz.toNat + 1 + 4 ≤ hmFrameSz := by
    rw [hf]
    decide
  simp only [cmdCbcn, if_pos hroom]
  rw [hf]
  rfl

/-- The plain path records a payload behind the flags whenever it succeeds. -/
theorem plainPayld_offset {f : HeyMacFrame} {bs : List Octet}
    (h : (plainPayld f bs).1 = true) : (plainPayld f bs).2.payldOffset ≠ 0 := by
  unfold plainPayld at h ⊢
  split at h
  · rename_i hle
    rw [if_pos hle]
    rw [setPayld_eq] at h ⊢
    split at h
    · rename_i hroom
      rw [if_pos hroom]
      intro h0
      have hpos := payldOffsetOf_toNat f.fctl
      have h2 := payldPos_two f.fctl
      have h0 : payldOffsetOf f.fctl = 0 := h0
      rw [h0] at hpos
      simp only [BitVec.ofNat_eq_ofNat, BitVec.toNat_ofNat] at hpos
      omega
    · cases h
  · cases h

/-- A command over FCTL succeeds and leaves the payload offset at 0, so its outcome is
never the plain one. -/
theorem overFctl_not_plain {f : HeyMacFrame} {pidfld : HmPidfld} {h : Header}
    (b : Opened f pidfld h) (bs bs' : List Octet) :
    ¬ SameResult f (true, overFctl f bs) (plainPayld f bs') := by
  intro same
  have hplain := plainPayld_offset same.success.symm
  have hoffset : (overFctl f bs).payldOffset = 0 := b.payldOffset
  exact hplain ((same.payldOffset rfl).symm.trans hoffset)

/-- On a header built in the documented order neither command ever has the plain
path's outcome, whatever the protocol, the header and the command's contents. -/
theorem cmd_never_plain (buf : Mem) (pidfld : HmPidfld) (h : Header) (txt : Mem) (sz : Octet)
    (caps status : BitVec 16) :
    ¬ SameResult (startHeader buf pidfld h) (cmdTxt (startHeader buf pidfld h) txt sz)
        (plainPayld (startHeader buf pidfld h) (txtOctets txt sz)) ∧
      ¬ SameResult (startHeader buf pidfld h) (cmdCbcn (startHeader buf pidfld h) caps status)
        (plainPayld (startHeader buf pidfld h) (cbcnOctets caps status)) := by
  have b := startHeader_opened buf pidfld h
  rw [cmdTxt_empty (opened_getFrmSz b), cmdCbcn_empty (opened_getFrmSz b)]
  exact ⟨overFctl_not_plain b _ _, overFctl_not_plain b _ _⟩

/-- The text command of the button handler, on a frame with a long source address:
FCTL is overwritten by the command octet and the payload offset stays 0. -/
theorem cmdTxt_overwrites_fctl :
    let f := buildHeader (fun _ => 0) ⟨none, none, some (.long 0x17161514131211FD)⟩
    let cmd := cmdTxt f (fun _ => 0x4B) 4
    let plain := plainPayld f (txtOctets (fun _ => 0x4B) 4)
    f.fctl = 0x44 ∧ cmd.2.fctl = 0x83 ∧ plain.2.fctl = 0x44 ∧
      ¬ SameResult f cmd plain := by
  intro f cmd plain
  refine ⟨by decide, by decide, by decide, fun same => ?_⟩
  have hoct := same.octets (by decide) frmIdxFctl (by decide)
  exact absurd hoct (by decide)

end HeyMacCmd
