import HeyMacMbed.FrameLayout

/-!
# Building a frame in the documented order

Protocol, NetId, DstAddr, SrcAddr, payload, multihop. Each setter is shown to
add its field to the header the frame spells and to leave the fields before it
alone; `Opened` collects what holds of a header under construction.
-/

open Bits Octets

/-- The octets before the payload, by the flags the setters leave. -/
def Header.len (h : Header) : Nat :=
  2 + (if h.netId.isSome then 2 else 0) +
    (if h.dst.isSome then (if h.isLong then 8 else 2) else 0) +
    (if h.src.isSome then (if h.isLong then 8 else 2) else 0)

namespace HeyMacFrame

/-- The header setters in the documented order, absent fields skipped, under any protocol. -/
def startHeader (buf : Mem) (pidfld : HmPidfld) (h : Header) : HeyMacFrame :=
  let f := (new buf).setProtocol pidfld
  let f := h.netId.elim f f.setNetId
  let f := h.dst.elim f f.setDstAddr
  h.src.elim f f.setSrcAddr

/-- The header of a frame that `parse` knows the layout of. -/
def buildHeader (buf : Mem) (h : Header) : HeyMacFrame := startHeader buf .csmaV0 h

/-- The flags no header setter touches. -/
def otherBits : Octet := fctlBitP ||| fctlBitM ||| fctlBitI ||| fctlBitX

theorem has_of_otherBits {c m : Octet} (h : has c otherBits = false)
    (hm : otherBits = otherBits ||| m) : has c m = false := by
  rw [hm, has_mask_or, Bool.or_eq_false_iff] at h
  exact h.2

theorem readHeader_setNetId (f : HeyMacFrame) (n : BitVec 16)
    (hd : has f.fctl fctlBitD = false) (hs : has f.fctl fctlBitS = false) :
    readHeader (f.setNetId n).frm = ⟨some n, none, none⟩ := by
  have hbits : has fctlBitN fctlBitN = true ∧ has fctlBitN fctlBitD = false ∧
      has fctlBitN fctlBitS = false := by decide
  have hget := store_get f (p := frmIdxNetid) (be n 2) (f.fctl ||| fctlBitN) (Nat.le_refl 2)
  rw [be_length] at hget
  simp only [setNetId_eq, readHeader, store_fctl, has_or, hd, hs, hbits, hget,
    ofBe_be n (show 16 ≤ 8 * 2 by decide)]
  simp

/-- A store behind the NetId that keeps bit N keeps the NetId. -/
theorem readHeader_store_netId (f : HeyMacFrame) {p : Nat} (bs : List Octet) {c : Octet}
    (hp : dstPos f.fctl ≤ p) (hN : has c fctlBitN = has f.fctl fctlBitN) :
    (readHeader (f.store p bs c).frm).netId = (readHeader f.frm).netId := by
  simp only [readHeader, store_fctl, hN]
  by_cases hn : has f.fctl fctlBitN = true
  · have hkeep : get (f.store p bs c).frm frmIdxNetid 2 = get f.frm frmIdxNetid 2 := by
      apply get_congr
      intro k hk
      simp only [dstPos, hn, frmIdxNetid, if_true] at hp
      apply store_other
      · simp only [frmIdxNetid, frmIdxFctl]; omega
      · simp only [frmIdxNetid]; omega
    rw [if_pos hn, hkeep]
    exact (if_pos hn).symm
  · rw [if_neg hn]
    exact (if_neg hn).symm

theorem readHeader_setDstAddr (f : HeyMacFrame) (d : Addr)
    (hs : has f.fctl fctlBitS = false) :
    readHeader (f.setDstAddr d).frm = { readHeader f.frm with dst := some d, src := none } := by
  have hbits : has fctlBitL fctlBitN = false ∧ has fctlBitD fctlBitN = false ∧
      has fctlBitL fctlBitD = false ∧ has fctlBitD fctlBitD = true ∧
      has fctlBitL fctlBitS = false ∧ has fctlBitD fctlBitS = false := by decide
  obtain ⟨hLN, hDN, hLD, hDD, hLS, hDS⟩ := hbits
  have hN := has_withAddr f.fctl fctlBitD d.isLong hLN
  have hD := has_withAddr f.fctl fctlBitD d.isLong hLD
  have hS := has_withAddr f.fctl fctlBitD d.isLong hLS
  rw [hDN, Bool.or_false] at hN
  rw [hDD, Bool.or_true] at hD
  rw [hDS, Bool.or_false, hs] at hS
  have hpos : dstPos (withAddr f.fctl fctlBitD d.isLong) = dstPos f.fctl := by
    simp only [dstPos, hN]
  have hread := Addr.read_of_get
    (store_get f d.octets (withAddr f.fctl fctlBitD d.isLong) (dstPos_ge f.fctl))
  rw [setDstAddr_eq]
  ext1
  · exact readHeader_store_netId f _ (Nat.le_refl _) hN
  · simp only [readHeader, store_fctl, hD, has_withAddr_L, hpos, hread, if_true]
  · simp only [readHeader, store_fctl, hS]
    rfl

/-- `set_src_addr` behind a DstAddr of its own width. -/
theorem readHeader_setSrcAddr (f : HeyMacFrame) (s : Addr)
    (hw : has f.fctl fctlBitD = true → has f.fctl fctlBitL = s.isLong) :
    readHeader (f.setSrcAddr s).frm = { readHeader f.frm with src := some s } := by
  have hbits : has fctlBitL fctlBitN = false ∧ has fctlBitS fctlBitN = false ∧
      has fctlBitL fctlBitD = false ∧ has fctlBitS fctlBitD = false ∧
      has fctlBitL fctlBitS = false ∧ has fctlBitS fctlBitS = true := by decide
  obtain ⟨hLN, hSN, hLD, hSD, hLS, hSS⟩ := hbits
  have hN := has_withAddr f.fctl fctlBitS s.isLong hLN
  have hD := has_withAddr f.fctl fctlBitS s.isLong hLD
  have hS := has_withAddr f.fctl fctlBitS s.isLong hLS
  rw [hSN, Bool.or_false] at hN
  rw [hSD, Bool.or_false] at hD
  rw [hSS, Bool.or_true] at hS
  have hdst : dstPos (withAddr f.fctl fctlBitS s.isLong) = dstPos f.fctl := by
    simp only [dstPos, hN]
  have hpos : srcPos (withAddr f.fctl fctlBitS s.isLong) = srcPos f.fctl := by
    simp only [srcPos, hdst, hD, addrSz, has_withAddr_L]
    by_cases hd : has f.fctl fctlBitD = true
    · rw [hw hd]
    · rw [if_neg hd, if_neg hd]
  have hsrc : 2 ≤ srcPos f.fctl := (dstPos_ge _).trans (srcPos_ge _)
  have hread := Addr.read_of_get
    (store_get f s.octets (withAddr f.fctl fctlBitS s.isLong) hsrc)
  rw [setSrcAddr_eq]
  ext1
  · exact readHeader_store_netId f _ (srcPos_ge _) hN
  · simp only [readHeader, store_fctl, hD, has_withAddr_L, hdst]
    by_cases hd : has f.fctl fctlBitD = true
    · have hL : has (f.frm frmIdxFctl) fctlBitL = s.isLong := hw hd
      have hD' : has (f.frm frmIdxFctl) fctlBitD = true := hd
      have hkeep : Addr.read (f.store (srcPos f.fctl) s.octets
          (withAddr f.fctl fctlBitS s.isLong)).frm (dstPos f.fctl) s.isLong =
          Addr.read f.frm (dstPos f.fctl) s.isLong := by
        apply Addr.read_congr
        intro k hk
        have hge := dstPos_ge f.fctl
        have hend : srcPos f.fctl = dstPos f.fctl + if s.isLong then 8 else 2 := by
          simp only [srcPos, hd, if_true, addrSz, hw hd]
        apply store_other
        · simp only [frmIdxFctl]; omega
        · omega
      rw [if_pos hd, if_pos hD', hkeep, hL]
      rfl
    · rw [if_neg hd]
      exact (if_neg hd).symm
  · simp only [readHeader, store_fctl, hS, has_withAddr_L, hpos, hread, if_true]

/-- Flag octets that imply the same header layout. -/
structure SameFields (c c' : Octet) : Prop where
  netId : has c' fctlBitN = has c fctlBitN
  dst : has c' fctlBitD = has c fctlBitD
  src : has c' fctlBitS = has c fctlBitS
  long : has c' fctlBitL = has c fctlBitL

theorem SameFields.of_eq {c c' : Octet} (h : c' = c) : SameFields c c' := by
  subst h
  exact ⟨rfl, rfl, rfl, rfl⟩

section SameFields
variable {c c' : Octet} (e : SameFields c c')
include e

theorem SameFields.dstPos : dstPos c' = dstPos c := by
  simp only [HeyMacFrame.dstPos, e.netId]

theorem SameFields.srcPos : srcPos c' = srcPos c := by
  simp only [HeyMacFrame.srcPos, e.dstPos, e.dst, addrSz, e.long]

theorem SameFields.payldPos : payldPos c' = payldPos c := by
  simp only [HeyMacFrame.payldPos, e.srcPos, e.src, addrSz, e.long]

end SameFields

/-- A header is spelled by its flags and the octets between them and the payload. -/
theorem readHeader_congr {m m' : Mem} (e : SameFields (m frmIdxFctl) (m' frmIdxFctl))
    (h : ∀ i, 2 ≤ i → i < payldPos (m frmIdxFctl) → m' i = m i) :
    readHeader m' = readHeader m := by
  have h2 := dstPos_ge (m frmIdxFctl)
  have hds := srcPos_ge (m frmIdxFctl)
  have hsp := payldPos_ge (m frmIdxFctl)
  ext1
  · simp only [readHeader, e.netId]
    by_cases hn : has (m frmIdxFctl) fctlBitN = true
    · have hpos : dstPos (m frmIdxFctl) = 4 := by simp only [dstPos, hn, frmIdxNetid, if_true]
      have hnet : get m' frmIdxNetid 2 = get m frmIdxNetid 2 := get_congr fun k hk =>
        h _ (Nat.le_add_right _ _) (by simp only [frmIdxNetid]; omega)
      rw [if_pos hn, if_pos hn, hnet]
    · rw [if_neg hn, if_neg hn]
  · simp only [readHeader, e.dst, e.dstPos, e.long]
    by_cases hd : has (m frmIdxFctl) fctlBitD = true
    · have hpos : srcPos (m frmIdxFctl) = dstPos (m frmIdxFctl) +
          if has (m frmIdxFctl) fctlBitL then 8 else 2 := by
        simp only [srcPos, hd, if_true, addrSz]
      rw [if_pos hd, if_pos hd, Addr.read_congr fun k hk => h _ (by omega) (by omega)]
    · rw [if_neg hd, if_neg hd]
  · simp only [readHeader, e.src, e.srcPos, e.long]
    by_cases hs : has (m frmIdxFctl) fctlBitS = true
    · have hpos : payldPos (m frmIdxFctl) = srcPos (m frmIdxFctl) +
          if has (m frmIdxFctl) fctlBitL then 8 else 2 := by
        simp only [payldPos, hs, if_true, addrSz]
      rw [if_pos hs, if_pos hs, Addr.read_congr fun k hk => h _ (by omega) (by omega)]
    · rw [if_neg hs, if_neg hs]

/-- So are payload, Hops and TxAddr, by the octets behind the header. -/
theorem readMessage_behind {m m' : Mem} {sz : Nat} (e : SameFields (m frmIdxFctl) (m' frmIdxFctl))
    (hM : has (m' frmIdxFctl) fctlBitM = has (m frmIdxFctl) fctlBitM)
    (h : ∀ i, payldPos (m frmIdxFctl) ≤ i →
      i < payldPos (m frmIdxFctl) + sz + mhopLen (m frmIdxFctl) → m' i = m i) :
    (readMessage m' sz).payld = (readMessage m sz).payld ∧
      (readMessage m' sz).mhop = (readMessage m sz).mhop := by
  simp only [readMessage, e.payldPos, e.long, hM]
  constructor
  · exact get_congr fun k hk => h _ (by omega) (by omega)
  · by_cases hM : has (m frmIdxFctl) fctlBitM = true
    · have hlen : mhopLen (m frmIdxFctl) =
          1 + if has (m frmIdxFctl) fctlBitL then 8 else 2 := by
        simp only [mhopLen, hM, if_true, addrSz]
      rw [if_pos hM, if_pos hM, h _ (by omega) (by omega),
        Addr.read_congr fun k hk => h _ (by omega) (by omega)]
    · rw [if_neg hM, if_neg hM]

/-- A message is spelled by the octets up to its end. -/
theorem readMessage_congr {m m' : Mem} {sz : Nat} (hc : m' frmIdxFctl = m frmIdxFctl)
    (h : ∀ i, 2 ≤ i → i < payldPos (m frmIdxFctl) + sz + mhopLen (m frmIdxFctl) →
      m' i = m i) :
    readMessage m' sz = readMessage m sz := by
  have h2 := payldPos_two (m frmIdxFctl)
  obtain ⟨hpayld, hmhop⟩ := readMessage_behind (.of_eq hc) (by rw [hc])
    fun i hlo hi => h i (h2.trans hlo) hi
  ext1
  · exact readHeader_congr (.of_eq hc) fun i hlo hi => h i hlo (by omega)
  · exact hpayld
  · exact hmhop

theorem withAddr_plain {c bit : Octet} {long : Bool} (hc : has c otherBits = false)
    (hb : has bit otherBits = false) : has (withAddr c bit long) otherBits = false := by
  rw [has_withAddr c bit long (by decide), hc, hb]
  rfl

/-- The flags the setters leave for a header. -/
structure Flags (c : Octet) (h : Header) : Prop where
  plain : has c otherBits = false
  netId : has c fctlBitN = h.netId.isSome
  dst : has c fctlBitD = h.dst.isSome
  src : has c fctlBitS = h.src.isSome
  long : has c fctlBitL = h.isLong

namespace Flags
variable {c : Octet} {h : Header} {o : Option (BitVec 16)} {od : Option Addr}

theorem zero : Flags 0#8 ⟨none, none, none⟩ := by
  constructor <;> exact has_zero _

theorem setNetId (b : Flags c ⟨none, none, none⟩) (n : BitVec 16) :
    Flags (c ||| fctlBitN) ⟨some n, none, none⟩ := by
  obtain ⟨hP, hN, hD, hS, hL⟩ := b
  constructor
  · rw [has_or, hP]
    decide
  · rw [has_or, hN]
    rfl
  · rw [has_or, hD]
    rfl
  · rw [has_or, hS]
    rfl
  · rw [has_or, hL]
    rfl

theorem setDstAddr (b : Flags c ⟨o, none, none⟩) (d : Addr) :
    Flags (withAddr c fctlBitD d.isLong) ⟨o, some d, none⟩ := by
  obtain ⟨hP, hN, hD, hS, hL⟩ := b
  constructor
  · exact withAddr_plain hP (by decide)
  · rw [has_withAddr _ _ _ (by decide), hN, show has fctlBitD fctlBitN = false by decide,
      Bool.or_false]
  · rw [has_withAddr _ _ _ (by decide), show has fctlBitD fctlBitD = true by decide,
      Bool.or_true]
    rfl
  · rw [has_withAddr _ _ _ (by decide), hS, show has fctlBitD fctlBitS = false by decide]
    rfl
  · exact has_withAddr_L _ _ _

theorem setSrcAddr (b : Flags c ⟨o, od, none⟩) (s : Addr) :
    Flags (withAddr c fctlBitS s.isLong) ⟨o, od, some s⟩ := by
  obtain ⟨hP, hN, hD, hS, hL⟩ := b
  constructor
  · exact withAddr_plain hP (by decide)
  · rw [has_withAddr _ _ _ (by decide), hN, show has fctlBitS fctlBitN = false by decide,
      Bool.or_false]
  · rw [has_withAddr _ _ _ (by decide), hD, show has fctlBitS fctlBitD = false by decide,
      Bool.or_false]
  · rw [has_withAddr _ _ _ (by decide), show has fctlBitS fctlBitS = true by decide,
      Bool.or_true]
    rfl
  · exact has_withAddr_L _ _ _

theorem multihop (b : Flags c h) : has c fctlBitM = false :=
  has_of_otherBits b.plain (by decide)

theorem payldPos (b : Flags c h) : payldPos c = h.len := by
  simp only [HeyMacFrame.payldPos, srcPos, dstPos, addrSz, frmIdxNetid, b.netId, b.dst, b.src,
    b.long, Header.len]

end Flags

/-- What the header setters leave, whatever the widths of the addresses: the header is
read back if they agree. -/
structure Opened (f : HeyMacFrame) (pidfld : HmPidfld) (h : Header) : Prop where
  pid : f.frm frmIdxPid = pidfld.code
  flags : Flags f.fctl h
  header : h.OneWidth → readHeader f.frm = h
  payldOffset : f.payldOffset = 0
  payldSz : f.payldSz = 0
  micSz : f.micSz = 0
  rxdSz : f.rxdSz = 0

theorem opened_new (buf : Mem) (pidfld : HmPidfld) :
    Opened ((new buf).setProtocol pidfld) pidfld ⟨none, none, none⟩ := by
  have hc : ((new buf).setProtocol pidfld).frm frmIdxFctl = 0#8 := by
    simp [new, ofBuf, setProtocol, frmIdxPid, frmIdxFctl, sFrameStart, frm, setFrm]
  refine ⟨?_, ?_, fun _ => ?_, rfl, rfl, rfl, rfl⟩
  · simp [setProtocol]
  · rw [fctl, hc]
    exact Flags.zero
  · simp only [readHeader, hc, has_zero]
    rfl

namespace Opened
variable {f : HeyMacFrame} {pidfld : HmPidfld} {h h' : Header} {o : Option (BitVec 16)}
  {od : Option Addr}

/-- A store of a header field. -/
theorem store (b : Opened f pidfld h) {p : Nat} {bs : List Octet} {c : Octet} (hp : 2 ≤ p)
    (hc : Flags c h') (header : h'.OneWidth → readHeader (f.store p bs c).frm = h') :
    Opened (f.store p bs c) pidfld h' where
  pid := (store_other f bs c (by decide) (Or.inl (show frmIdxPid < p by
    simp only [frmIdxPid]; omega))).trans b.pid
  flags := by rw [fctl, store_fctl]; exact hc
  header := header
  payldOffset := b.payldOffset
  payldSz := b.payldSz
  micSz := b.micSz
  rxdSz := b.rxdSz

theorem setNetId (b : Opened f pidfld ⟨none, none, none⟩) (n : BitVec 16) :
    Opened (f.setNetId n) pidfld ⟨some n, none, none⟩ := by
  have header := readHeader_setNetId f n b.flags.dst b.flags.src
  rw [setNetId_eq] at header ⊢
  exact b.store (Nat.le_refl 2) (b.flags.setNetId n) fun _ => header

theorem setDstAddr (b : Opened f pidfld ⟨o, none, none⟩) (d : Addr) :
    Opened (f.setDstAddr d) pidfld ⟨o, some d, none⟩ := by
  have header := readHeader_setDstAddr f d b.flags.src
  rw [b.header fun d hd => by cases hd] at header
  rw [setDstAddr_eq] at header ⊢
  exact b.store (dstPos_ge _) (b.flags.setDstAddr d) fun _ => header

/-- A second address of another width changes how the first is read. -/
theorem setSrcAddr (b : Opened f pidfld ⟨o, od, none⟩) (s : Addr) :
    Opened (f.setSrcAddr s) pidfld ⟨o, od, some s⟩ := by
  have header : Header.OneWidth ⟨o, od, some s⟩ →
      readHeader (f.setSrcAddr s).frm = ⟨o, od, some s⟩ := by
    intro hw
    have hlong : has f.fctl fctlBitD = true → has f.fctl fctlBitL = s.isLong := by
      intro hd
      rw [b.flags.dst] at hd
      obtain ⟨d, hod⟩ := Option.isSome_iff_exists.mp hd
      have hod : od = some d := hod
      subst hod
      exact b.flags.long.trans (hw d rfl s rfl)
    rw [readHeader_setSrcAddr f s hlong, b.header fun d _ t ht => by cases ht]
  rw [setSrcAddr_eq] at header ⊢
  exact b.store ((dstPos_ge _).trans (srcPos_ge _)) (b.flags.setSrcAddr s) header

end Opened

theorem startHeader_opened (buf : Mem) (pidfld : HmPidfld) (h : Header) :
    Opened (startHeader buf pidfld h) pidfld h := by
  obtain ⟨o, od, os⟩ := h
  simp only [startHeader]
  have b0 := opened_new buf pidfld
  generalize (new buf).setProtocol pidfld = f at b0 ⊢
  have b1 : Opened (o.elim f f.setNetId) pidfld ⟨o, none, none⟩ := by
    cases o with
    | none => exact b0
    | some n => exact b0.setNetId n
  generalize o.elim f f.setNetId = g at b1 ⊢
  have b2 : Opened (od.elim g g.setDstAddr) pidfld ⟨o, od, none⟩ := by
    cases od with
    | none => exact b1
    | some d => exact b1.setDstAddr d
  generalize od.elim g g.setDstAddr = k at b2 ⊢
  cases os with
  | none => exact b2
  | some s => exact b2.setSrcAddr s

end HeyMacFrame
