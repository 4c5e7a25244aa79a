import HeyMacMbed.FrameBuild

/-!
# The sizes of frames under construction

The header setters take addresses of either width, each on its own. Whatever
they are given, FCTL says which fields are present and the last address set
gives the width, so the place of the payload is known. The sizes of a frame
follow, and with them what `set_mhop` and the receiving constructor make of a
frame that fills the buffer.
-/

open Bits Octets

namespace HeyMacFrame

/-- What a successful `set_payld` does to a frame. -/
structure PayldSet (f : HeyMacFrame) (payld : Mem) (sz : Octet) (f' : HeyMacFrame) : Prop where
  room : payldPos f.fctl + sz.toNat < hmFrameSz
  frm : f'.frm = put f.frm (payldPos f.fctl) (get payld 0 sz.toNat)
  offset : f'.payldOffset = payldOffsetOf f.fctl
  payldSz : f'.payldSz = sz
  micSz : f'.micSz = f.micSz
  rxdSz : f'.rxdSz = f.rxdSz

theorem setPayld_true {f f' : HeyMacFrame} {payld : Mem} {sz : Octet}
    (h : f.setPayld payld sz = (true, f')) : PayldSet f payld sz f' := by
  rw [setPayld_eq] at h
  split at h
  · rename_i hroom
    rw [Prod.mk.injEq] at h
    obtain ⟨_, rfl⟩ := h
    exact ⟨hroom, frm_putFrm f _ _, rfl, rfl, rfl, rfl⟩
  · cases h

namespace PayldSet
variable {f f' : HeyMacFrame} {data : Mem} {sz : Octet} (p : PayldSet f data sz f')
include p

theorem before {i : Nat} (hi : i < HeyMacFrame.payldPos f.fctl) : f'.frm i = f.frm i := by
  rw [p.frm, put_outside _ _ _ _ (Or.inl hi)]

theorem fctl : f'.fctl = f.fctl := p.before (payldPos_two f.fctl)

theorem payld : Octets.get f'.frm (HeyMacFrame.payldPos f.fctl) sz.toNat =
    Octets.get data 0 sz.toNat := by
  have hget := get_put_same f.frm (HeyMacFrame.payldPos f.fctl) (Octets.get data 0 sz.toNat)
  rw [get_length, ← p.frm] at hget
  exact hget

end PayldSet

/-- What a successful `set_mhop` does to a frame. -/
structure MhopSet (f : HeyMacFrame) (hops : Octet) (a : Addr) (f' : HeyMacFrame) : Prop where
  single : has f.fctl fctlBitM = false
  width : has f.fctl fctlBitL = a.isLong
  room : f.partsSz + (1 + a.octets.length) ≤ hmFrameSz
  store : f' = f.store f.partsSz (hops :: a.octets) (f.fctl ||| fctlBitM)

theorem setMhop_true {f f' : HeyMacFrame} {hops : Octet} {a : Addr} (hp : 2 ≤ f.partsSz)
    (h : f.setMhop hops a = (true, f')) : MhopSet f hops a f' := by
  rw [setMhop_eq f hops a hp] at h
  split at h
  · rename_i hok
    obtain ⟨hM, hL, hroom⟩ := hok
    exact ⟨hM, hL, hroom, (congrArg Prod.snd h).symm⟩
  · cases h

theorem has_multihop (c : Octet) {m : Octet} (hm : has fctlBitM m = false) :
    has (c ||| fctlBitM) m = has c m := by
  rw [has_or, hm, Bool.or_false]

theorem sameFields_multihop (c : Octet) : SameFields c (c ||| fctlBitM) :=
  ⟨has_multihop c (by decide), has_multihop c (by decide), has_multihop c (by decide),
    has_multihop c (by decide)⟩

/-- Bit M makes room for Hops and TxAddr. -/
theorem mhopLen_multihop (c : Octet) : mhopLen (c ||| fctlBitM) = 1 + addrSz c := by
  have hM : has (c ||| fctlBitM) fctlBitM = true := by
    rw [has_or, show has fctlBitM fctlBitM = true by decide, Bool.or_true]
  simp only [mhopLen, hM, if_true, addrSz, (sameFields_multihop c).long]

namespace MhopSet
variable {f f' : HeyMacFrame} {hops : Octet} {a : Addr} (p : MhopSet f hops a f')
include p

theorem fctl : f'.fctl = f.fctl ||| fctlBitM := by
  rw [p.store, HeyMacFrame.fctl, store_fctl]

theorem before {i : Nat} (hc : i ≠ frmIdxFctl) (hi : i < f.partsSz) : f'.frm i = f.frm i := by
  rw [p.store, store_other f _ _ hc (Or.inl hi)]

theorem length : a.octets.length = addrSz f.fctl := by
  rw [Addr.octets_length, addrSz, p.width]

theorem payldSz : f'.payldSz = f.payldSz := by rw [p.store, store_payldSz]

/-- Bit M moves no field. -/
theorem offset (h : f.payldOffset = payldOffsetOf f.fctl) :
    f'.payldOffset = payldOffsetOf f'.fctl := by
  rw [p.fctl, p.store, store_payldOffset, h]
  apply BitVec.eq_of_toNat_eq
  rw [payldOffsetOf_toNat, payldOffsetOf_toNat, (sameFields_multihop f.fctl).payldPos]

end MhopSet

/-- The parts of a frame without a MIC. -/
theorem partsSz_of {f : HeyMacFrame} (offset : f.payldOffset = payldOffsetOf f.fctl)
    (micSz : f.micSz = 0) : f.partsSz = payldPos f.fctl + f.payldSz.toNat := by
  rw [partsSz, offset, micSz, payldOffsetOf_toNat]
  rfl

/-- The parts end behind the flags. -/
theorem partsSz_two {f : HeyMacFrame} (offset : f.payldOffset = payldOffsetOf f.fctl) :
    2 ≤ f.partsSz := by
  have h2 := payldPos_two f.fctl
  rw [partsSz, offset, payldOffsetOf_toNat]
  omega

/-- A frame whose sizes are those of its flags and its payload. -/
structure Sized (f : HeyMacFrame) : Prop where
  offset : f.payldOffset = payldOffsetOf f.fctl
  micSz : f.micSz = 0
  rxdSz : f.rxdSz = 0
  room : payldPos f.fctl + f.payldSz.toNat < hmFrameSz

namespace Sized
variable {f f' : HeyMacFrame} (s : Sized f)
include s

theorem partsSz : f.partsSz = payldPos f.fctl + f.payldSz.toNat := partsSz_of s.offset s.micSz

/-- The sender's size is the end of the message. -/
theorem getFrmSz : f.getFrmSz.toNat = payldPos f.fctl + f.payldSz.toNat + mhopLen f.fctl := by
  have hparts := s.partsSz
  have hmh := mhopLen_le f.fctl
  have hroom := s.room
  simp only [hmFrameSz] at hroom
  simp only [HeyMacFrame.partsSz] at hparts
  have hrx : ¬ f.rxdSz ≠ 0 := fun hne => hne s.rxdSz
  simp only [HeyMacFrame.getFrmSz, if_neg hrx, hparts, mhopSz_toNat, BitVec.toNat_ofNat]
  omega

theorem getBufSz : f.getBufSz.toNat = sFrameStart + f.getFrmSz.toNat := by
  have hsize := s.getFrmSz
  have hmh := mhopLen_le f.fctl
  have hroom := s.room
  simp only [hmFrameSz] at hroom
  simp only [HeyMacFrame.getBufSz, BitVec.toNat_add, BitVec.toNat_ofNat, sFrameStart]
  omega

/-- Appending Hops and TxAddr keeps the sizes those of flags and payload. -/
theorem setMhop {hops : Octet} {a : Addr} (p : MhopSet f hops a f') : Sized f' where
  offset := p.offset s.offset
  micSz := by rw [p.store, store_micSz, s.micSz]
  rxdSz := by rw [p.store, store_rxdSz, s.rxdSz]
  room := by
    rw [p.fctl, (sameFields_multihop f.fctl).payldPos, p.payldSz]
    exact s.room

theorem setMhop_getFrmSz {hops : Octet} {a : Addr} (p : MhopSet f hops a f') :
    f'.getFrmSz.toNat = f.getFrmSz.toNat + (1 + a.octets.length) := by
  have e := sameFields_multihop f.fctl
  have hlen := p.length
  have hsingle : mhopLen f.fctl = 0 := by simp [mhopLen, p.single]
  rw [(s.setMhop p).getFrmSz, s.getFrmSz, p.fctl, e.payldPos, mhopLen_multihop, p.payldSz]
  omega

end Sized

/-- A frame built up to its payload. -/
structure Loaded (f : HeyMacFrame) (pidfld : HmPidfld) (h : Header) (payld : Mem) (sz : Octet) :
    Prop where
  pid : f.frm frmIdxPid = pidfld.code
  flags : Flags f.fctl h
  sized : Sized f
  payldSz : f.payldSz = sz
  message : h.OneWidth → readMessage f.frm f.payldSz.toNat = ⟨h, get payld 0 sz.toNat, none⟩

/-- A payload behind a header. -/
theorem Opened.setPayld {f f' : HeyMacFrame} {pidfld : HmPidfld} {h : Header}
    (b : Opened f pidfld h) {payld : Mem} {sz : Octet}
    (hset : f.setPayld payld sz = (true, f')) : Loaded f' pidfld h payld sz := by
  have p := setPayld_true hset
  have h2 := payldPos_two f.fctl
  have hc : f'.frm frmIdxFctl = f.fctl := p.fctl
  constructor
  · rw [p.before (show frmIdxPid < _ by simp only [frmIdxPid]; omega), b.pid]
  · rw [p.fctl]
    exact b.flags
  · refine ⟨?_, ?_, ?_, ?_⟩
    · rw [p.offset, p.fctl]
    · rw [p.micSz, b.micSz]
    · rw [p.rxdSz, b.rxdSz]
    · rw [p.fctl, p.payldSz]
      exact p.room
  · exact p.payldSz
  · intro hw
    have header : readHeader f'.frm = h := by
      rw [← b.header hw]
      exact readHeader_congr (.of_eq hc) fun i _ hi => p.before hi
    ext1
    · exact header
    · simp only [readMessage, hc, p.payldSz, p.payld]
    · simp only [readMessage, hc, b.flags.multihop]
      rfl

theorem Loaded.getFrmSz {f : HeyMacFrame} {pidfld : HmPidfld} {h : Header} {payld : Mem}
    {sz : Octet} (l : Loaded f pidfld h payld sz) : f.getFrmSz.toNat = h.len + sz.toNat := by
  rw [l.sized.getFrmSz, l.flags.payldPos, l.payldSz, mhopLen, l.flags.multihop]
  rfl

end HeyMacFrame
