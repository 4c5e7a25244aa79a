import HeyMacMbed.FrameWidths

/-!
# What is parsed can be built

A message and the flags determine the octets of a frame, so a received frame is
rebuilt by giving the setters the message it spells. The exception is long
addressing without a DstAddr or SrcAddr: only the setters of these set the L
flag, and `set_mhop` asks for it.
-/

open Bits Octets

theorem Addr.read_ext {m m' : Mem} {pos : Nat} {l : Bool}
    (h : Addr.read m pos l = Addr.read m' pos l) {i : Nat} (hlo : pos ≤ i)
    (hi : i < pos + if l then 8 else 2) : m i = m' i := by
  cases l with
  | false =>
    have hword : ofBe 16 (get m pos 2) = ofBe 16 (get m' pos 2) := Addr.short.inj h
    exact get_ext (ofBe_injective (by simp) (by simp) hword) hlo hi
  | true =>
    have hword : ofBe 64 (get m pos 8) = ofBe 64 (get m' pos 8) := Addr.long.inj h
    exact get_ext (ofBe_injective (by simp) (by simp) hword) hlo hi

namespace HeyMacFrame

/-- Flags are told apart by their bits. -/
theorem fctl_ext {c c' : Octet} (hP : has c fctlBitP = has c' fctlBitP)
    (hM : has c fctlBitM = has c' fctlBitM) (hS : has c fctlBitS = has c' fctlBitS)
    (hI : has c fctlBitI = has c' fctlBitI) (hD : has c fctlBitD = has c' fctlBitD)
    (hN : has c fctlBitN = has c' fctlBitN) (hL : has c fctlBitL = has c' fctlBitL)
    (hX : has c fctlBitX = has c' fctlBitX) : c = c' := by
  have hbit : ∀ {i : Nat}, i < 8 → has c (1#8 <<< i) = has c' (1#8 <<< i) →
      c.getLsbD i = c'.getLsbD i := by
    intro i hi h
    rw [← has_bit c hi, ← has_bit c' hi, h]
  apply BitVec.eq_of_getLsbD_eq
  intro i hi
  have hcases : i = 0 ∨ i = 1 ∨ i = 2 ∨ i = 3 ∨ i = 4 ∨ i = 5 ∨ i = 6 ∨ i = 7 := by omega
  rcases hcases with rfl | rfl | rfl | rfl | rfl | rfl | rfl | rfl
  · exact hbit hi hP
  · exact hbit hi hM
  · exact hbit hi hS
  · exact hbit hi hI
  · exact hbit hi hD
  · exact hbit hi hN
  · exact hbit hi hL
  · exact hbit hi hX

section Spelled
variable {m m' : Mem} {sz : Nat} (hc : m' frmIdxFctl = m frmIdxFctl)
  (hmsg : readMessage m' sz = readMessage m sz)
include hc hmsg

theorem netId_ext {i : Nat} (hlo : 2 ≤ i) (hi : i < dstPos (m frmIdxFctl)) : m' i = m i := by
  have hread := congrArg (fun msg : Message => msg.header.netId) hmsg
  simp only [readMessage, readHeader, hc] at hread
  cases hN : has (m frmIdxFctl) fctlBitN with
  | false =>
    simp only [dstPos, hN, frmIdxNetid] at hi
    simp at hi
    omega
  | true =>
    simp only [dstPos, hN, frmIdxNetid, if_true] at hi
    simp only [hN, if_true, Option.some.injEq] at hread
    exact get_ext (ofBe_injective (by simp) (by simp) hread) hlo hi

theorem dst_ext {i : Nat} (hlo : dstPos (m frmIdxFctl) ≤ i) (hi : i < srcPos (m frmIdxFctl)) :
    m' i = m i := by
  have hread := congrArg (fun msg : Message => msg.header.dst) hmsg
  simp only [readMessage, readHeader, hc] at hread
  cases hD : has (m frmIdxFctl) fctlBitD with
  | false =>
    simp only [srcPos, hD] at hi
    simp at hi
    omega
  | true =>
    simp only [srcPos, hD, if_true, addrSz] at hi
    simp only [hD, if_true, Option.some.injEq] at hread
    exact Addr.read_ext hread hlo hi

theorem src_ext {i : Nat} (hlo : srcPos (m frmIdxFctl) ≤ i) (hi : i < payldPos (m frmIdxFctl)) :
    m' i = m i := by
  have hread := congrArg (fun msg : Message => msg.header.src) hmsg
  simp only [readMessage, readHeader, hc] at hread
  cases hS : has (m frmIdxFctl) fctlBitS with
  | false =>
    simp only [payldPos, hS] at hi
    simp at hi
    omega
  | true =>
    simp only [payldPos, hS, if_true, addrSz] at hi
    simp only [hS, if_true, Option.some.injEq] at hread
    exact Addr.read_ext hread hlo hi

theorem payld_ext {i : Nat} (hlo : payldPos (m frmIdxFctl) ≤ i)
    (hi : i < payldPos (m frmIdxFctl) + sz) : m' i = m i := by
  have hread := congrArg Message.payld hmsg
  simp only [readMessage, hc] at hread
  exact get_ext hread hlo hi

theorem mhop_ext {i : Nat} (hlo : payldPos (m frmIdxFctl) + sz ≤ i)
    (hi : i < payldPos (m frmIdxFctl) + sz + mhopLen (m frmIdxFctl)) : m' i = m i := by
  have hread := congrArg Message.mhop hmsg
  simp only [readMessage, hc] at hread
  cases hM : has (m frmIdxFctl) fctlBitM with
  | false =>
    simp only [mhopLen, hM] at hi
    simp at hi
    omega
  | true =>
    simp only [mhopLen, hM, if_true, addrSz] at hi
    simp only [hM, if_true, Option.some.injEq, Prod.mk.injEq] at hread
    obtain ⟨hhops, haddr⟩ := hread
    by_cases hfirst : i = payldPos (m frmIdxFctl) + sz
    · rw [hfirst]
      exact hhops
    · exact Addr.read_ext haddr (by omega) (by omega)

/-- Flags and message determine the octets behind the protocol. -/
theorem octets_ext {i : Nat} (hlo : 1 ≤ i)
    (hi : i < payldPos (m frmIdxFctl) + sz + mhopLen (m frmIdxFctl)) : m' i = m i := by
  by_cases h1 : i = frmIdxFctl
  · rw [h1, hc]
  have h2 : 2 ≤ i := by simp only [frmIdxFctl] at h1; omega
  by_cases hdst : i < dstPos (m frmIdxFctl)
  · exact netId_ext hc hmsg h2 hdst
  by_cases hsrc : i < srcPos (m frmIdxFctl)
  · exact dst_ext hc hmsg (by omega) hsrc
  by_cases hpayld : i < payldPos (m frmIdxFctl)
  · exact src_ext hc hmsg (by omega) hpayld
  by_cases hmhop : i < payldPos (m frmIdxFctl) + sz
  · exact payld_ext hc hmsg (by omega) hmhop
  · exact mhop_ext hc hmsg (by omega) hi

end Spelled

/-- The width the setters leave for the header a frame spells is the frame's own if the
L flag comes with an address to set it. -/
theorem readHeader_isLong {m : Mem}
    (hL : has (m frmIdxFctl) fctlBitL = true →
      has (m frmIdxFctl) fctlBitD = true ∨ has (m frmIdxFctl) fctlBitS = true) :
    (readHeader m).isLong = has (m frmIdxFctl) fctlBitL := by
  cases hS : has (m frmIdxFctl) fctlBitS with
  | true => simp [readHeader, Header.isLong, hS]
  | false =>
    cases hD : has (m frmIdxFctl) fctlBitD with
    | true => simp [readHeader, Header.isLong, hS, hD]
    | false =>
      rw [hS, hD] at hL
      have hshort : has (m frmIdxFctl) fctlBitL = false := by
        cases h : has (m frmIdxFctl) fctlBitL with
        | false => rfl
        | true => simpa using hL h
      rw [hshort]
      simp [readHeader, Header.isLong, hS, hD]

/-- The flags of the header a frame spells are the frame's own. -/
theorem flags_sameFields {m : Mem} {c : Octet} (b : Flags c (readHeader m))
    (hL : (readHeader m).isLong = has (m frmIdxFctl) fctlBitL) :
    SameFields (m frmIdxFctl) c := by
  constructor
  · rw [b.netId]
    cases h : has (m frmIdxFctl) fctlBitN <;> simp [readHeader, h]
  · rw [b.dst]
    cases h : has (m frmIdxFctl) fctlBitD <;> simp [readHeader, h]
  · rw [b.src]
    cases h : has (m frmIdxFctl) fctlBitS <;> simp [readHeader, h]
  · rw [b.long, hL]

/-- A frame whose flags are the header setters' and bit M. -/
theorem fctl_of_sameFields {c c' : Octet} (hP : has c fctlBitP = false)
    (hI : has c fctlBitI = false) (hX : has c fctlBitX = false) (hplain : has c' otherBits = false)
    (e : SameFields c c') :
    (has c fctlBitM = false → c' = c) ∧ (has c fctlBitM = true → c' ||| fctlBitM = c) := by
  have hM' : has c' fctlBitM = false := has_of_otherBits hplain (by decide)
  have hP' : has c' fctlBitP = false := has_of_otherBits hplain (by decide)
  have hI' : has c' fctlBitI = false := has_of_otherBits hplain (by decide)
  have hX' : has c' fctlBitX = false := has_of_otherBits hplain (by decide)
  have e' := sameFields_multihop c'
  constructor
  · intro hM
    exact fctl_ext (hP'.trans hP.symm) (hM'.trans hM.symm) e.src (hI'.trans hI.symm) e.dst
      e.netId e.long (hX'.trans hX.symm)
  · intro hM
    have hset : has (c' ||| fctlBitM) fctlBitM = true := by
      rw [has_or, show has fctlBitM fctlBitM = true by decide, Bool.or_true]
    exact fctl_ext (((has_multihop c' (by decide)).trans hP').trans hP.symm)
      (hset.trans hM.symm) (e'.src.trans e.src)
      (((has_multihop c' (by decide)).trans hI').trans hI.symm) (e'.dst.trans e.dst)
      (e'.netId.trans e.netId) (e'.long.trans e.long)
      (((has_multihop c' (by decide)).trans hX').trans hX.symm)

/-- The setters succeed on what a frame of at most 255 octets spells, and leave its flags. -/
theorem build_of_spelled (pool : Mem) {m : Mem} {sz : Octet}
    (hP : has (m frmIdxFctl) fctlBitP = false) (hI : has (m frmIdxFctl) fctlBitI = false)
    (hX : has (m frmIdxFctl) fctlBitX = false)
    (hL : (readHeader m).isLong = has (m frmIdxFctl) fctlBitL)
    (hfit : payldPos (m frmIdxFctl) + sz.toNat + mhopLen (m frmIdxFctl) ≤ 255) :
    ∃ f, build pool (readHeader m) (fun k => m (payldPos (m frmIdxFctl) + k)) sz
        (readMessage m sz.toNat).mhop = some f ∧ f.fctl = m frmIdxFctl := by
  have opened : Opened (buildHeader pool (readHeader m)) .csmaV0 (readHeader m) :=
    startHeader_opened pool .csmaV0 (readHeader m)
  have e := flags_sameFields opened.flags hL
  rcases hset : (buildHeader pool (readHeader m)).setPayld
    (fun k => m (payldPos (m frmIdxFctl) + k)) sz with ⟨_ | _, g⟩
  · rw [setPayld_eq, e.payldPos, if_pos (by simp only [hmFrameSz]; omega)] at hset
    cases hset
  · have l := opened.setPayld hset
    have e' := flags_sameFields l.flags hL
    have hflags := fctl_of_sameFields hP hI hX l.flags.plain e'
    cases hM : has (m frmIdxFctl) fctlBitM with
    | false =>
      refine ⟨g, ?_, hflags.1 hM⟩
      simp only [build, hset, readMessage, hM]
      rfl
    | true =>
      obtain ⟨hops, a, hmhop, ha⟩ : ∃ hops a, (readMessage m sz.toNat).mhop = some (hops, a) ∧
          a.isLong = has (m frmIdxFctl) fctlBitL := by
        simp only [readMessage, hM, if_true]
        exact ⟨_, _, rfl, Addr.read_isLong _ _ _⟩
      have hlen : a.octets.length = addrSz (m frmIdxFctl) := by
        rw [Addr.octets_length, ha, addrSz]
      have hroom : g.partsSz + (1 + a.octets.length) ≤ hmFrameSz := by
        rw [l.sized.partsSz, e'.payldPos, l.payldSz, hlen]
        simp only [mhopLen, hM, if_true] at hfit
        simp only [hmFrameSz]
        omega
      have hset' := setMhop_eq g hops a (partsSz_two l.sized.offset)
      rw [if_pos ⟨l.flags.multihop, e'.long.trans ha.symm, hroom⟩] at hset'
      refine ⟨g.store g.partsSz (hops :: a.octets) (g.fctl ||| fctlBitM), ?_, ?_⟩
      · simp only [build, hset, hmhop, hset']
      · rw [fctl, store_fctl]
        exact hflags.2 hM

/-- The setters make the long flag only with an address. -/
theorem build_long {pool : Mem} {h : Header} {payld : Mem} {sz : Octet}
    {mhop : Option (Octet × Addr)} {f : HeyMacFrame} (hb : build pool h payld sz mhop = some f)
    (hL : has f.fctl fctlBitL = true) : has f.fctl fctlBitD = true ∨ has f.fctl fctlBitS = true := by
  have hheader : ∀ g, Flags g h → has g fctlBitL = true →
      has g fctlBitD = true ∨ has g fctlBitS = true := by
    intro c b hc
    rw [b.long] at hc
    rw [b.dst, b.src]
    obtain ⟨o, od, os⟩ := h
    cases os with
    | some s => exact Or.inr rfl
    | none =>
      cases od with
      | some d => exact Or.inl rfl
      | none => cases hc
  obtain ⟨g, loaded, ⟨rfl, rfl⟩ | ⟨hops, a, rfl, p⟩⟩ := build_cases hb
  · exact hheader _ loaded.flags hL
  · have e := sameFields_multihop g.fctl
    rw [p.fctl, e.long] at hL
    rw [p.fctl, e.dst, e.src]
    exact hheader _ loaded.flags hL

/-- The setters, on the fresh buffer `pool`, make the `sz` frame octets of `buf`. -/
def Covered (pool buf : Mem) (sz : Octet) : Prop :=
  ∃ h payld n mhop f, build pool h payld n mhop = some f ∧ f.getFrmSz.toNat = sz.toNat ∧
    ∀ i, i < sz.toNat → f.frm i = buf (sFrameStart + i)

theorem Covered.long {pool buf : Mem} {sz : Octet} (hcov : Covered pool buf sz)
    (hsz : 2 ≤ sz.toNat) (hL : has (buf (sFrameStart + frmIdxFctl)) fctlBitL = true) :
    has (buf (sFrameStart + frmIdxFctl)) fctlBitD = true ∨
      has (buf (sFrameStart + frmIdxFctl)) fctlBitS = true := by
  obtain ⟨h, payld, n, mhop, f, hb, _, hsame⟩ := hcov
  have hc : f.fctl = buf (sFrameStart + frmIdxFctl) :=
    hsame frmIdxFctl (by simp only [frmIdxFctl]; omega)
  rw [← hc] at hL ⊢
  exact build_long hb hL

/-- Every received frame without a pending, IE or extended flag is what the setters make
of a fresh buffer just if long addressing comes with a DstAddr or SrcAddr. -/
theorem build_covers_iff (buf : Mem) (sz : Octet) (hacc : (ofBuf buf sz).parse.1 = true)
    (hP : has (buf (sFrameStart + frmIdxFctl)) fctlBitP = false)
    (hI : has (buf (sFrameStart + frmIdxFctl)) fctlBitI = false)
    (hX : has (buf (sFrameStart + frmIdxFctl)) fctlBitX = false)
    (hL : has (buf (sFrameStart + frmIdxFctl)) fctlBitL = true →
      has (buf (sFrameStart + frmIdxFctl)) fctlBitD = true ∨
        has (buf (sFrameStart + frmIdxFctl)) fctlBitS = true ∨
        has (buf (sFrameStart + frmIdxFctl)) fctlBitM = true) :
    (∀ pool : Mem, Covered pool buf sz) ↔
      ¬ (has (buf (sFrameStart + frmIdxFctl)) fctlBitL = true ∧
        has (buf (sFrameStart + frmIdxFctl)) fctlBitM = true ∧
        has (buf (sFrameStart + frmIdxFctl)) fctlBitD = false ∧
        has (buf (sFrameStart + frmIdxFctl)) fctlBitS = false) := by
  have hpos := pos_of_accepted buf sz hacc
  obtain ⟨hpid, hlt⟩ := (parse_ofBuf buf sz hpos).mp hacc
  have h2 := payldPos_two (buf (sFrameStart + frmIdxFctl))
  constructor
  · rintro hcover ⟨hlong, _, hD, hS⟩
    rcases (hcover buf).long (by omega) hlong with hd | hs
    · rw [hd] at hD
      cases hD
    · rw [hs] at hS
      cases hS
  · intro hnot pool
    unfold Covered
    -- the frame the octets spell, seen from its first octet
    generalize hm : (fun i => buf (sFrameStart + i)) = m
    have hbuf : ∀ i, buf (sFrameStart + i) = m i := fun i => congrFun hm i
    simp only [hbuf] at hP hI hX hL hpid hlt h2 hnot ⊢
    have hcond : has (m frmIdxFctl) fctlBitL = true →
        has (m frmIdxFctl) fctlBitD = true ∨ has (m frmIdxFctl) fctlBitS = true := by
      intro hlong
      by_contra hno
      rw [not_or, Bool.not_eq_true, Bool.not_eq_true] at hno
      rcases hL hlong with hd | hs | hM
      · rw [hd] at hno
        cases hno.1
      · rw [hs] at hno
        cases hno.2
      · exact hnot ⟨hlong, hM, hno.1, hno.2⟩
    have hszlt := sz.isLt
    have hn : (BitVec.ofNat 8 (sz.toNat - mhopLen (m frmIdxFctl) - payldPos (m frmIdxFctl))).toNat =
        sz.toNat - mhopLen (m frmIdxFctl) - payldPos (m frmIdxFctl) :=
      Nat.mod_eq_of_lt (by omega)
    generalize BitVec.ofNat 8 (sz.toNat - mhopLen (m frmIdxFctl) - payldPos (m frmIdxFctl)) = n
      at hn
    obtain ⟨f, hb, hc⟩ := build_of_spelled pool hP hI hX (readHeader_isLong hcond)
      (show payldPos (m frmIdxFctl) + n.toNat + mhopLen (m frmIdxFctl) ≤ 255 by omega)
    obtain ⟨complete, hsz⟩ := build_complete (readHeader_oneWidth m) hb
    have hsize : f.getFrmSz.toNat = sz.toNat := by
      rw [complete.sized.getFrmSz, hc, hsz]
      omega
    refine ⟨_, _, _, _, f, hb, hsize, ?_⟩
    have hmsg : readMessage f.frm n.toNat = readMessage m n.toNat := by
      have hpayld : get (fun k => m (payldPos (m frmIdxFctl) + k)) 0 n.toNat =
          get m (payldPos (m frmIdxFctl)) n.toNat :=
        get_congr fun k _ => congrArg m (by rw [Nat.zero_add])
      have hspelled := complete.message
      rw [hsz, hpayld] at hspelled
      exact hspelled
    intro i hi
    by_cases h0 : i = frmIdxPid
    · rw [h0, complete.pid, hpid]
    · exact octets_ext hc hmsg (by simp only [frmIdxPid] at h0; omega) (by omega)

/-- A received buffer that holds the given octets from the frame's start on. -/
def rxOctets (bs : List Octet) : Mem := fun i => bs.getD (i - sFrameStart) 0

/-- A short multihop frame with a source address. -/
theorem build_covers_short :
    let buf := rxOctets [0xE4, 0x06, 0x12, 0x34, 0x4B, 5, 0, 9]
    (∀ pool : Mem, Covered pool buf 8) ↔
      ¬ (has (buf (sFrameStart + frmIdxFctl)) fctlBitL = true ∧
        has (buf (sFrameStart + frmIdxFctl)) fctlBitM = true ∧
        has (buf (sFrameStart + frmIdxFctl)) fctlBitD = false ∧
        has (buf (sFrameStart + frmIdxFctl)) fctlBitS = false) := by
  intro buf
  exact build_covers_iff buf 8 (by decide) (by decide) (by decide) (by decide)
    fun _ => Or.inr (Or.inl (by decide))

/-- An anonymous multihop frame with a long TxAddr and one octet of payload is accepted,
but no calls of the setters make it. -/
theorem anonymous_long_not_covered :
    let buf := rxOctets [0xE4, 0x42, 0x4B, 5, 0xFD, 0x11, 0x12, 0x13, 0x14, 0x15, 0x16, 0x17]
    (ofBuf buf 12).parse.1 = true ∧
      has (buf (sFrameStart + frmIdxFctl)) (fctlBitP ||| fctlBitI ||| fctlBitX) = false ∧
      has (buf (sFrameStart + frmIdxFctl)) fctlBitM = true ∧
      ∀ pool, ¬ Covered pool buf 12 := by
  intro buf
  refine ⟨by decide, by decide, by decide, ?_⟩
  intro pool hcov
  rcases hcov.long (by decide) (by decide) with hD | hS
  · exact absurd hD (by decide)
  · exact absurd hS (by decide)

end HeyMacFrame
