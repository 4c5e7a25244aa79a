import HeyMacMbed.FrameLayout

/-!
# What the parser accepts

`parse` walks the FCTL octet with an 8-bit offset, then cuts a 16-bit payload
size down to 8 bits. None of these values wraps, so acceptance is a plain
comparison of sizes and an accepted frame is tiled by its fields.
-/

open Bits Octets

namespace HeyMacFrame

/-- `mhop_sz`, as `get_frm_sz` and `parse` compute it. -/
def mhopSzOf (c : Octet) : Octet :=
  if has c fctlBitM then (if has c fctlBitL then 1 + 8 else 1 + 2) else 0

/-- The 16-bit `payld_sz` of `parse` on a frame without a MIC. -/
def payldSz16 (c sz : Octet) : BitVec 16 :=
  BitVec.ofInt 16 ((sz.toNat - (mhopSzOf c).toNat - 0 : Int) - (payldOffsetOf c).toNat)

/-- The integers of `parse` for the flags `c` and the size `sz` are those of
unbounded arithmetic. -/
structure NoWrap (c sz : Octet) : Prop where
  dst : (dstOffset c).toNat = dstPos c
  src : (srcOffset c).toNat = srcPos c
  payld : (payldOffsetOf c).toNat = payldPos c
  mhop : (mhopSzOf c).toNat = mhopLen c
  payldSz : (payldSz16 c sz).toInt = (sz.toNat : Int) - mhopLen c - payldPos c
  cut : 0 < (payldSz16 c sz).toInt →
    (((payldSz16 c sz).setWidth 8).toNat : Int) = (payldSz16 c sz).toInt

theorem noWrap (c sz : Octet) : NoWrap c sz := by
  have hpos := payldPos_le c
  have hmh := mhopLen_le c
  have hsz := sz.isLt
  have hmhop : (mhopSzOf c).toNat = mhopLen c := mhopSz_toNat c
  have hdiff : ((sz.toNat - (mhopSzOf c).toNat - 0 : Int) - (payldOffsetOf c).toNat) =
      (sz.toNat : Int) - mhopLen c - payldPos c := by
    rw [hmhop, payldOffsetOf_toNat]
    omega
  have hint : (payldSz16 c sz).toInt = (sz.toNat : Int) - mhopLen c - payldPos c := by
    rw [payldSz16, hdiff]
    exact ofInt16_toInt (by omega) (by omega)
  refine ⟨dstOffset_toNat c, srcOffset_toNat c, payldOffsetOf_toNat c, hmhop, hint, ?_⟩
  intro hpositive
  obtain ⟨n, hn⟩ : ∃ n : Nat, (n : Int) = (sz.toNat : Int) - mhopLen c - payldPos c :=
    ⟨sz.toNat - mhopLen c - payldPos c, by omega⟩
  rw [hint, ← hn, payldSz16, hdiff, ← hn, BitVec.ofInt_natCast, BitVec.toNat_setWidth,
    BitVec.toNat_ofNat]
  omega

section OfBuf
variable (buf : Mem) (sz : Octet)

@[simp] theorem ofBuf_micSz : (ofBuf buf sz).micSz = 0 := by
  unfold ofBuf
  split <;> rfl

@[simp] theorem ofBuf_rxdSz : (ofBuf buf sz).rxdSz = sz := by
  unfold ofBuf
  split <;> rfl

theorem ofBuf_pos {sz : Octet} (h : 1 ≤ sz.toNat) : ofBuf buf sz = ⟨buf, 0, 0, 0, sz⟩ := by
  have hne : sz ≠ 0 := by
    rintro rfl
    exact absurd h (by decide)
  rw [ofBuf, if_neg hne]

/-- Acceptance of received octets: protocol and a size beyond header and multihop fields. -/
theorem parse_ofBuf (h : 1 ≤ sz.toNat) :
    (ofBuf buf sz).parse.1 = true ↔
      buf (sFrameStart + frmIdxPid) = HmPidfld.csmaV0.code ∧
      payldPos (buf (sFrameStart + frmIdxFctl)) + mhopLen (buf (sFrameStart + frmIdxFctl)) <
        sz.toNat := by
  have hf := ofBuf_pos buf h
  have hc : (ofBuf buf sz).fctl = buf (sFrameStart + frmIdxFctl) := by rw [hf]; rfl
  have hpid : (ofBuf buf sz).validateFields =
      (buf (sFrameStart + frmIdxPid) == HmPidfld.csmaV0.code) := by rw [hf]; rfl
  rw [parse_eq _ (ofBuf_micSz buf sz), hc, hpid, ofBuf_rxdSz]
  by_cases hlt : payldPos (buf (sFrameStart + frmIdxFctl)) +
      mhopLen (buf (sFrameStart + frmIdxFctl)) < sz.toNat
  · rw [if_pos hlt, beq_iff_eq]
    exact ⟨fun hp => ⟨hp, hlt⟩, fun hp => hp.1⟩
  · rw [if_neg hlt]
    constructor
    · intro hfalse
      split at hfalse <;> cases hfalse
    · intro hp
      exact absurd hp.2 hlt

/-- Without received octets there is no valid frame. -/
theorem pos_of_accepted (hacc : (ofBuf buf sz).parse.1 = true) : 1 ≤ sz.toNat := by
  by_contra hzero
  have hz : sz = 0 := BitVec.eq_of_toNat_eq (by simp; omega)
  subst hz
  rw [parse_eq _ (ofBuf_micSz buf 0), ofBuf_rxdSz, if_neg (by simp), if_neg (by simp)] at hacc
  cases hacc

/-- What an accepted frame looks like after `parse`. -/
theorem parse_accepted (hacc : (ofBuf buf sz).parse.1 = true) :
    (ofBuf buf sz).parse.2 =
      ⟨buf, payldOffsetOf (buf (sFrameStart + frmIdxFctl)),
        BitVec.ofNat 8 (sz.toNat - mhopLen (buf (sFrameStart + frmIdxFctl)) -
          payldPos (buf (sFrameStart + frmIdxFctl))), 0, sz⟩ := by
  have hpos := pos_of_accepted buf sz hacc
  have hlt := ((parse_ofBuf buf sz hpos).mp hacc).2
  rw [parse_eq _ (ofBuf_micSz buf sz), ofBuf_pos buf hpos]
  exact congrArg Prod.snd (if_pos hlt)

end OfBuf

/-- `parse` accepts received octets exactly if they are of the one protocol and more
than header and multihop fields; an accepted frame is tiled by its fields; and octets
that were not received play no part. Bit X is not looked at. -/
theorem parse_tiles (buf : Mem) (sz : Octet) :
    let c := buf (sFrameStart + frmIdxFctl)
    let r := (ofBuf buf sz).parse
    (r.1 = true ↔ 2 ≤ sz.toNat ∧ buf (sFrameStart + frmIdxPid) = HmPidfld.csmaV0.code ∧
      payldPos c + mhopLen c < sz.toNat) ∧
    (r.1 = true → r.2.payldOffset.toNat = payldPos c ∧ 1 ≤ r.2.payldSz.toNat ∧
      r.2.payldOffset.toNat + r.2.payldSz.toNat + r.2.micSz.toNat + mhopLen c = sz.toNat ∧
      NoWrap c sz) ∧
    ∀ buf' : Mem,
      (∀ i, i < sz.toNat → buf' (sFrameStart + i) = buf (sFrameStart + i)) →
      (ofBuf buf' sz).parse.1 = r.1 ∧
      (r.1 = true → (ofBuf buf' sz).parse.2 = { r.2 with buf := buf' }) := by
  intro c r
  have h2 := payldPos_two c
  have hpos := payldPos_le c
  have hszlt := sz.isLt
  refine ⟨?_, ?_, ?_⟩
  · constructor
    · intro hacc
      have hok := (parse_ofBuf buf sz (pos_of_accepted buf sz hacc)).mp hacc
      have hlt : payldPos c + mhopLen c < sz.toNat := hok.2
      exact ⟨by omega, hok⟩
    · rintro ⟨hsz, hok⟩
      exact (parse_ofBuf buf sz (by omega)).mpr hok
  · intro hacc
    have hlt : payldPos c + mhopLen c < sz.toNat :=
      ((parse_ofBuf buf sz (pos_of_accepted buf sz hacc)).mp hacc).2
    have hend : r.2 = ⟨buf, payldOffsetOf c,
        BitVec.ofNat 8 (sz.toNat - mhopLen c - payldPos c), 0, sz⟩ := parse_accepted buf sz hacc
    have hpayld : (BitVec.ofNat 8 (sz.toNat - mhopLen c - payldPos c)).toNat =
        sz.toNat - mhopLen c - payldPos c := Nat.mod_eq_of_lt (by omega)
    rw [hend]
    refine ⟨payldOffsetOf_toNat c, ?_, ?_, noWrap c sz⟩
    · show 1 ≤ (BitVec.ofNat 8 _).toNat
      omega
    · show (payldOffsetOf c).toNat + (BitVec.ofNat 8 _).toNat + 0 + mhopLen c = _
      rw [payldOffsetOf_toNat, hpayld]
      omega
  · intro buf' hsame
    by_cases hsz : 2 ≤ sz.toNat
    · have hpid := hsame frmIdxPid (by simp only [frmIdxPid]; omega)
      have hc : buf' (sFrameStart + frmIdxFctl) = c :=
        hsame frmIdxFctl (by simp only [frmIdxFctl]; omega)
      have hiff : (ofBuf buf' sz).parse.1 = true ↔ r.1 = true := by
        rw [parse_ofBuf buf' sz (by omega), hpid, hc]
        exact (parse_ofBuf buf sz (by omega)).symm
      refine ⟨Bool.eq_iff_iff.mpr hiff, ?_⟩
      intro hacc
      rw [parse_accepted buf' sz (hiff.mpr hacc), show r.2 = _ from parse_accepted buf sz hacc, hc]
    · -- one octet or none: the flags may not have been received, but no frame is this short
      have hrefused : ∀ b : Mem, (ofBuf b sz).parse.1 = false := by
        intro b
        apply Bool.eq_false_iff.mpr
        intro hb
        have hlt := ((parse_ofBuf b sz (pos_of_accepted b sz hb)).mp hb).2
        have h2b := payldPos_two (b (sFrameStart + frmIdxFctl))
        omega
      refine ⟨(hrefused buf').trans (hrefused buf).symm, ?_⟩
      intro hacc
      rw [show r.1 = false from hrefused buf] at hacc
      cases hacc

/-- An extended frame of the one protocol is accepted just if its size is beyond the
header and multihop fields that its other flags would have. -/
theorem parse_extended_iff (buf : Mem) (sz : Octet) (hsz : 2 ≤ sz.toNat)
    (hpid : buf (sFrameStart + frmIdxPid) = HmPidfld.csmaV0.code)
    (_hX : has (buf (sFrameStart + frmIdxFctl)) fctlBitX = true) :
    (ofBuf buf sz).parse.1 = true ↔
      payldPos (buf (sFrameStart + frmIdxFctl)) + mhopLen (buf (sFrameStart + frmIdxFctl)) <
        sz.toNat := by
  have hiff := parse_ofBuf buf sz (by omega)
  constructor
  · intro hacc
    exact (hiff.mp hacc).2
  · intro hlt
    exact hiff.mpr ⟨hpid, hlt⟩

/-- Three octets without further flags. -/
theorem parse_extended_three :
    let buf : Mem := fun i => if i = 1 then 0xE4 else 0x80
    (ofBuf buf 3).parse.1 = true ↔ payldPos 0x80 + mhopLen 0x80 < 3 := by
  intro buf
  exact parse_extended_iff buf 3 (by decide) rfl (by decide)

/-- PID and FCTL alone, and with the bit of a NetId in FCTL that means nothing here. -/
theorem parse_extended_refused :
    let bare : Mem := fun i => if i = 1 then 0xE4 else 0x80
    let netId : Mem := fun i => if i = 1 then 0xE4 else 0xA0
    bare (sFrameStart + frmIdxPid) = HmPidfld.csmaV0.code ∧
      has (bare (sFrameStart + frmIdxFctl)) fctlBitX = true ∧
      (ofBuf bare 2).parse.1 = false ∧
      netId (sFrameStart + frmIdxPid) = HmPidfld.csmaV0.code ∧
      has (netId (sFrameStart + frmIdxFctl)) fctlBitX = true ∧
      (ofBuf netId 4).parse.1 = false := by
  decide

end HeyMacFrame
