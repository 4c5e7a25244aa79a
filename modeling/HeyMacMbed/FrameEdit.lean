import HeyMacMbed.FrameWidths
import HeyMacMbed.FrameWrites

/-!
# Calls in any order

The header file gives one order of calls. What counts is less: that a call finds its
field present, in its old size, or nothing behind it. A draft is what the sender has said
by then; it takes such calls, as often and in whatever order they come, and the frame
spells the draft throughout.
-/

open Bits Octets HeyMacFrame

/-- What a sender has said so far. -/
structure Draft where
  pidfld : HmPidfld
  header : Header
  payld : Option (List Octet)
  mhop : Option (Octet × Addr)
  deriving DecidableEq

namespace Draft

/-- A new frame. -/
def blank : Draft := ⟨.invalid, ⟨none, none, none⟩, none, none⟩

/-- The draft after a call, unless the call comes out of place. -/
def edit (d : Draft) : FrameCall → Option Draft
  | .set (.protocol p) => some { d with pidfld := p }
  | .set (.netId n) =>
    if d.header.netId.isSome ∨ d.header.dst = none ∧ d.header.src = none ∧ d.payld = none then
      some { d with header := { d.header with netId := some n } }
    else none
  | .set (.dstAddr a) =>
    if d.header.dst.any (·.isLong == a.isLong) ∨ d.header.src = none ∧ d.payld = none then
      some { d with header := { d.header with dst := some a } }
    else none
  | .set (.srcAddr a) =>
    if d.header.dst.all (·.isLong == a.isLong) ∧
        (d.header.src.any (·.isLong == a.isLong) ∨ d.payld = none) then
      some { d with header := { d.header with src := some a } }
    else none
  | .set (.payld p sz) =>
    -- `set_payld` refuses what has no room
    if hmFrameSz ≤ d.header.len + sz.toNat then some d
    else if d.mhop = none ∨ d.payld.any (·.length == sz.toNat) then
      some { d with payld := some (get p 0 sz.toNat) }
    else none
  | .set (.mhop hops a) =>
    d.payld.map fun p =>
      if d.mhop = none ∧ d.header.isLong = a.isLong ∧
          d.header.len + p.length + (1 + a.octets.length) ≤ hmFrameSz then
        { d with mhop := some (hops, a) }
      else d
  | .payldSz sz =>
    if d.mhop = none ∧ d.payld.any (sz.toNat ≤ ·.length) then
      some { d with payld := d.payld.map (·.take sz.toNat) }
    else none
  | .parse => some d
  | .cmdTxt _ _ => none
  | .cmdCbcn _ _ => none

end Draft

/-- A header has the width of its DstAddr. -/
theorem Header.OneWidth.isLong {h : Header} (hw : h.OneWidth) {b : Addr} (hb : h.dst = some b) :
    h.isLong = b.isLong := by
  obtain ⟨o, od, os⟩ := h
  cases hb
  cases os with
  | none => rfl
  | some t => exact (hw b rfl t rfl).symm

namespace HeyMacFrame

/-- The flags of a header's fields. -/
structure Shows (c : Octet) (h : Header) : Prop where
  netId : has c fctlBitN = h.netId.isSome
  dst : has c fctlBitD = h.dst.isSome
  src : has c fctlBitS = h.src.isSome
  long : has c fctlBitL = h.isLong

namespace Shows
variable {c : Octet} {h : Header} (s : Shows c h)
include s

theorem payldPos : payldPos c = h.len := by
  simp only [HeyMacFrame.payldPos, srcPos, dstPos, addrSz, frmIdxNetid, s.netId, s.dst, s.src,
    s.long, Header.len]

theorem same {c' : Octet} (e : SameFields c c') : Shows c' h :=
  ⟨e.netId.trans s.netId, e.dst.trans s.dst, e.src.trans s.src, e.long.trans s.long⟩

theorem setNetId (n : BitVec 16) : Shows (c ||| fctlBitN) { h with netId := some n } := by
  have hbits : has fctlBitN fctlBitN = true ∧ has fctlBitN fctlBitD = false ∧
      has fctlBitN fctlBitS = false ∧ has fctlBitN fctlBitL = false := by decide
  obtain ⟨hN, hD, hS, hL⟩ := hbits
  constructor
  · rw [has_or, hN, Bool.or_true]
    rfl
  · rw [has_or, hD, Bool.or_false, s.dst]
  · rw [has_or, hS, Bool.or_false, s.src]
  · rw [has_or, hL, Bool.or_false, s.long]
    rfl

theorem setDstAddr (a : Addr) (hw : ∀ b ∈ h.src, b.isLong = a.isLong) :
    Shows (withAddr c fctlBitD a.isLong) { h with dst := some a } := by
  have hbits : has fctlBitL fctlBitN = false ∧ has fctlBitD fctlBitN = false ∧
      has fctlBitL fctlBitD = false ∧ has fctlBitD fctlBitD = true ∧
      has fctlBitL fctlBitS = false ∧ has fctlBitD fctlBitS = false := by decide
  obtain ⟨hLN, hDN, hLD, hDD, hLS, hDS⟩ := hbits
  constructor
  · rw [has_withAddr _ _ _ hLN, hDN, Bool.or_false, s.netId]
  · rw [has_withAddr _ _ _ hLD, hDD, Bool.or_true]
    rfl
  · rw [has_withAddr _ _ _ hLS, hDS, Bool.or_false, s.src]
  · rw [has_withAddr_L]
    cases hsrc : h.src with
    | none => simp only [Header.isLong]
    | some b => simp only [Header.isLong, hw b hsrc]

theorem setSrcAddr (a : Addr) : Shows (withAddr c fctlBitS a.isLong) { h with src := some a } := by
  have hbits : has fctlBitL fctlBitN = false ∧ has fctlBitS fctlBitN = false ∧
      has fctlBitL fctlBitD = false ∧ has fctlBitS fctlBitD = false ∧
      has fctlBitL fctlBitS = false ∧ has fctlBitS fctlBitS = true := by decide
  obtain ⟨hLN, hSN, hLD, hSD, hLS, hSS⟩ := hbits
  constructor
  · rw [has_withAddr _ _ _ hLN, hSN, Bool.or_false, s.netId]
  · rw [has_withAddr _ _ _ hLD, hSD, Bool.or_false, s.dst]
  · rw [has_withAddr _ _ _ hLS, hSS, Bool.or_true]
    rfl
  · exact has_withAddr_L _ _ _

end Shows

section Stores
variable (f : HeyMacFrame) {p : Nat} (bs : List Octet) {c : Octet} (e : SameFields f.fctl c)
include e

/-- A store beside DstAddr keeps it, -/
theorem readHeader_store_dst (hout : p + bs.length ≤ dstPos f.fctl ∨ srcPos f.fctl ≤ p) :
    (readHeader (f.store p bs c).frm).dst = (readHeader f.frm).dst := by
  have h2 := dstPos_ge f.fctl
  have hpos : dstPos c = dstPos f.fctl := e.dstPos
  simp only [readHeader, store_fctl, e.dst, hpos, e.long]
  by_cases hd : has f.fctl fctlBitD = true
  · have hend : srcPos f.fctl = dstPos f.fctl + if has f.fctl fctlBitL then 8 else 2 := by
      simp only [srcPos, hd, if_true, addrSz]
    have hkeep : Addr.read (f.store p bs c).frm (dstPos f.fctl) (has f.fctl fctlBitL) =
        Addr.read f.frm (dstPos f.fctl) (has f.fctl fctlBitL) := Addr.read_congr fun k hk =>
      store_other f bs c (by simp only [frmIdxFctl]; omega) (by omega)
    rw [if_pos hd, hkeep]
    exact (if_pos hd).symm
  · rw [if_neg hd]
    exact (if_neg hd).symm

/-- and one beside SrcAddr keeps that. -/
theorem readHeader_store_src (hout : p + bs.length ≤ srcPos f.fctl ∨ payldPos f.fctl ≤ p) :
    (readHeader (f.store p bs c).frm).src = (readHeader f.frm).src := by
  have h2 := (dstPos_ge f.fctl).trans (srcPos_ge f.fctl)
  have hpos : srcPos c = srcPos f.fctl := e.srcPos
  simp only [readHeader, store_fctl, e.src, hpos, e.long]
  by_cases hs : has f.fctl fctlBitS = true
  · have hend : payldPos f.fctl = srcPos f.fctl + if has f.fctl fctlBitL then 8 else 2 := by
      simp only [payldPos, hs, if_true, addrSz]
    have hkeep : Addr.read (f.store p bs c).frm (srcPos f.fctl) (has f.fctl fctlBitL) =
        Addr.read f.frm (srcPos f.fctl) (has f.fctl fctlBitL) := Addr.read_congr fun k hk =>
      store_other f bs c (by simp only [frmIdxFctl]; omega) (by omega)
    rw [if_pos hs, hkeep]
    exact (if_pos hs).symm
  · rw [if_neg hs]
    exact (if_neg hs).symm

end Stores

theorem sameFields_netId {c : Octet} (hN : has c fctlBitN = true) :
    SameFields c (c ||| fctlBitN) := by
  have hbits : has fctlBitN fctlBitD = false ∧ has fctlBitN fctlBitS = false ∧
      has fctlBitN fctlBitL = false := by decide
  obtain ⟨hD, hS, hL⟩ := hbits
  constructor
  · rw [has_or, hN, Bool.true_or]
  · rw [has_or, hD, Bool.or_false]
  · rw [has_or, hS, Bool.or_false]
  · rw [has_or, hL, Bool.or_false]

theorem sameFields_dst {c : Octet} {long : Bool} (hD : has c fctlBitD = true)
    (hL : has c fctlBitL = long) : SameFields c (withAddr c fctlBitD long) := by
  have hbits : has fctlBitL fctlBitN = false ∧ has fctlBitD fctlBitN = false ∧
      has fctlBitL fctlBitD = false ∧ has fctlBitL fctlBitS = false ∧
      has fctlBitD fctlBitS = false := by decide
  obtain ⟨hLN, hDN, hLD, hLS, hDS⟩ := hbits
  constructor
  · rw [has_withAddr _ _ _ hLN, hDN, Bool.or_false]
  · rw [has_withAddr _ _ _ hLD, hD, Bool.true_or]
  · rw [has_withAddr _ _ _ hLS, hDS, Bool.or_false]
  · rw [has_withAddr_L, hL]

theorem sameFields_src {c : Octet} {long : Bool} (hS : has c fctlBitS = true)
    (hL : has c fctlBitL = long) : SameFields c (withAddr c fctlBitS long) := by
  have hbits : has fctlBitL fctlBitN = false ∧ has fctlBitS fctlBitN = false ∧
      has fctlBitL fctlBitD = false ∧ has fctlBitS fctlBitD = false ∧
      has fctlBitL fctlBitS = false := by decide
  obtain ⟨hLN, hSN, hLD, hSD, hLS⟩ := hbits
  constructor
  · rw [has_withAddr _ _ _ hLN, hSN, Bool.or_false]
  · rw [has_withAddr _ _ _ hLD, hSD, Bool.or_false]
  · rw [has_withAddr _ _ _ hLS, hS, Bool.true_or]
  · rw [has_withAddr_L, hL]

section Present
variable (f : HeyMacFrame)

/-- `set_net_id` where there is a NetId. -/
theorem readHeader_setNetId_present (n : BitVec 16) (hN : has f.fctl fctlBitN = true) :
    readHeader (f.setNetId n).frm = { readHeader f.frm with netId := some n } := by
  have e := sameFields_netId hN
  have hpos : dstPos f.fctl = 4 := by simp only [dstPos, hN, frmIdxNetid, if_true]
  have hsrc := srcPos_ge f.fctl
  have hget := store_get f (be n 2) (f.fctl ||| fctlBitN) (p := frmIdxNetid) (Nat.le_refl 2)
  rw [be_length] at hget
  rw [setNetId_eq]
  ext1
  · simp only [readHeader, store_fctl, e.netId, hN, hget, ofBe_be n (show 16 ≤ 8 * 2 by decide)]
    rfl
  · exact readHeader_store_dst f _ e (Or.inl (by rw [be_length, hpos]; decide))
  · exact readHeader_store_src f _ e (Or.inl (by rw [be_length, frmIdxNetid]; omega))

/-- `set_dst_addr` where there is a DstAddr of the same width. -/
theorem readHeader_setDstAddr_present (a : Addr) (hD : has f.fctl fctlBitD = true)
    (hL : has f.fctl fctlBitL = a.isLong) :
    readHeader (f.setDstAddr a).frm = { readHeader f.frm with dst := some a } := by
  have e := sameFields_dst hD hL
  have hend : srcPos f.fctl = dstPos f.fctl + if a.isLong then 8 else 2 := by
    simp only [srcPos, hD, if_true, addrSz, hL]
  have hread := Addr.read_of_get
    (store_get f a.octets (withAddr f.fctl fctlBitD a.isLong) (dstPos_ge f.fctl))
  rw [setDstAddr_eq]
  ext1
  · exact readHeader_store_netId f _ (Nat.le_refl _) e.netId
  · simp only [readHeader, store_fctl, e.dst, hD, has_withAddr_L, e.dstPos, hread, if_true]
  · exact readHeader_store_src f _ e (Or.inl (by rw [Addr.octets_length, hend]))

end Present

/-- What a frame with a payload adds to its header. -/
structure Filled (f : HeyMacFrame) (payld : List Octet) (mhop : Option (Octet × Addr)) : Prop where
  offset : f.payldOffset = payldOffsetOf f.fctl
  payldSz : f.payldSz.toNat = payld.length
  room : payldPos f.fctl + payld.length < hmFrameSz
  reads : (readMessage f.frm payld.length).payld = payld ∧
    (readMessage f.frm payld.length).mhop = mhop

/-- The parts behind a header do not notice a change in it that keeps the layout. -/
theorem Filled.congr {f f' : HeyMacFrame} {q : List Octet} {t : Option (Octet × Addr)}
    (hf : Filled f q t) (e : SameFields f.fctl f'.fctl)
    (hM : has f'.fctl fctlBitM = has f.fctl fctlBitM) (ho : f'.payldOffset = f.payldOffset)
    (hsz : f'.payldSz = f.payldSz) (hkeep : ∀ i, payldPos f.fctl ≤ i → f'.frm i = f.frm i) :
    Filled f' q t := by
  have hreads : (readMessage f'.frm q.length).payld = (readMessage f.frm q.length).payld ∧
      (readMessage f'.frm q.length).mhop = (readMessage f.frm q.length).mhop :=
    readMessage_behind e hM fun i hi _ => hkeep i hi
  refine ⟨?_, ?_, ?_, ?_⟩
  · rw [ho, hf.offset]
    apply BitVec.eq_of_toNat_eq
    rw [payldOffsetOf_toNat, payldOffsetOf_toNat, e.payldPos]
  · rw [hsz, hf.payldSz]
  · rw [e.payldPos]
    exact hf.room
  · rw [hreads.1, hreads.2]
    exact hf.reads

theorem Filled.mhopLen {f : HeyMacFrame} {q : List Octet} {t : Option (Octet × Addr)}
    (hf : Filled f q t) : mhopLen f.fctl = mhopSz t := by
  have hread := hf.reads.2
  have hc : f.frm frmIdxFctl = f.fctl := rfl
  simp only [readMessage, hc] at hread
  rw [← hread]
  by_cases hM : has f.fctl fctlBitM = true
  · rw [if_pos hM]
    simp only [HeyMacFrame.mhopLen, hM, if_true, addrSz, mhopSz, Option.elim, Addr.octets_length,
      Addr.read_isLong]
  · rw [if_neg hM]
    exact if_neg hM

/-- The frame of a draft. -/
structure Spells (f : HeyMacFrame) (d : Draft) : Prop where
  pid : f.frm frmIdxPid = d.pidfld.code
  oneWidth : d.header.OneWidth
  shows : Shows f.fctl d.header
  multihop : has f.fctl fctlBitM = d.mhop.isSome
  header : readHeader f.frm = d.header
  micSz : f.micSz = 0
  rxdSz : f.rxdSz = 0
  filled : ∀ p ∈ d.payld, Filled f p d.mhop
  single : d.payld = none → d.mhop = none

theorem spells_new (buf : Mem) : Spells (new buf) .blank := by
  have hc : (new buf).frm frmIdxFctl = 0#8 := by simp [new, ofBuf]
  have hz : ∀ m, has (new buf).fctl m = false := fun m => by
    rw [fctl, hc]
    exact has_zero m
  constructor
  · simp [new, ofBuf, frmIdxPid, frmIdxFctl]
    rfl
  · intro d hd
    cases hd
  · exact ⟨hz _, hz _, hz _, hz _⟩
  · exact hz _
  · simp only [readHeader, hc, has_zero]
    rfl
  · rfl
  · rfl
  · intro p hp
    cases hp
  · exact fun _ => rfl

namespace Spells
variable {f : HeyMacFrame} {d : Draft} (s : Spells f d)
include s

/-- A header setter, with nothing behind its field or its field in place. -/
theorem setHeader {p : Nat} {bs : List Octet} {c : Octet} {h : Header} (hp : 2 ≤ p)
    (hshows : Shows c h) (hw : h.OneWidth) (hM : has c fctlBitM = has f.fctl fctlBitM)
    (header : readHeader (f.store p bs c).frm = h)
    (hin : d.payld = none ∨ SameFields f.fctl c ∧ p + bs.length ≤ payldPos f.fctl) :
    Spells (f.store p bs c) { d with header := h } where
  pid := (store_other f bs c (by decide) (Or.inl (show frmIdxPid < p by
    simp only [frmIdxPid]; omega))).trans s.pid
  oneWidth := hw
  shows := by rw [fctl, store_fctl]; exact hshows
  multihop := by rw [fctl, store_fctl, hM]; exact s.multihop
  header := header
  micSz := s.micSz
  rxdSz := s.rxdSz
  filled := fun q hq => by
    rcases hin with hnone | ⟨e, hin⟩
    · rw [hnone] at hq
      cases hq
    · have hc : (f.store p bs c).fctl = c := store_fctl f bs c
      have h2 := payldPos_two f.fctl
      refine (s.filled q hq).congr (by rw [hc]; exact e) (by rw [hc]; exact hM) rfl rfl
        fun i hi => store_other f bs c (by simp only [frmIdxFctl]; omega) (by omega)
  single := s.single

theorem setProtocol (p : HmPidfld) : Spells (f.setProtocol p) { d with pidfld := p } := by
  have hkeep : ∀ i, 1 ≤ i → (f.setProtocol p).frm i = f.frm i := fun i hi => by
    rw [HeyMacFrame.setProtocol, frm_setFrm, Function.update_of_ne (by simp only [frmIdxPid]; omega)]
  have hc : (f.setProtocol p).fctl = f.fctl := hkeep frmIdxFctl (Nat.le_refl 1)
  have h2 := payldPos_two f.fctl
  constructor
  · simp [HeyMacFrame.setProtocol]
  · exact s.oneWidth
  · rw [hc]
    exact s.shows
  · rw [hc]
    exact s.multihop
  · rw [← s.header]
    exact readHeader_congr (.of_eq hc) fun i hi _ => hkeep i (by omega)
  · exact s.micSz
  · exact s.rxdSz
  · exact fun q hq => (s.filled q hq).congr (.of_eq hc) (by rw [hc]) rfl rfl fun i hi =>
      hkeep i (by omega)
  · exact s.single

theorem setNetId (n : BitVec 16)
    (hin : d.header.netId.isSome ∨ d.header.dst = none ∧ d.header.src = none ∧ d.payld = none) :
    Spells (f.setNetId n) { d with header := { d.header with netId := some n } } := by
  have hM : has (f.fctl ||| fctlBitN) fctlBitM = has f.fctl fctlBitM := by
    rw [has_or, show has fctlBitN fctlBitM = false by decide, Bool.or_false]
  rcases hin with hsome | ⟨hd, hs, hp⟩
  · have hN : has f.fctl fctlBitN = true := s.shows.netId.trans hsome
    have header := readHeader_setNetId_present f n hN
    rw [s.header, setNetId_eq] at header
    rw [setNetId_eq]
    refine s.setHeader (Nat.le_refl 2) (s.shows.setNetId n) s.oneWidth hM header
      (Or.inr ⟨sameFields_netId hN, ?_⟩)
    have hpos : dstPos f.fctl = 4 := by simp only [dstPos, hN, frmIdxNetid, if_true]
    have hsrc := srcPos_ge f.fctl
    have hpay := payldPos_ge f.fctl
    rw [be_length, frmIdxNetid]
    omega
  · have hD : has f.fctl fctlBitD = false := by rw [s.shows.dst, hd]; rfl
    have hS : has f.fctl fctlBitS = false := by rw [s.shows.src, hs]; rfl
    have header := readHeader_setNetId f n hD hS
    have hsame : (⟨some n, none, none⟩ : Header) = { d.header with netId := some n } :=
      Header.ext rfl hd.symm hs.symm
    rw [hsame, setNetId_eq] at header
    rw [setNetId_eq]
    exact s.setHeader (Nat.le_refl 2) (s.shows.setNetId n) s.oneWidth hM header (Or.inl hp)

theorem setDstAddr (a : Addr)
    (hin : d.header.dst.any (·.isLong == a.isLong) ∨ d.header.src = none ∧ d.payld = none) :
    Spells (f.setDstAddr a) { d with header := { d.header with dst := some a } } := by
  have hM : has (withAddr f.fctl fctlBitD a.isLong) fctlBitM = has f.fctl fctlBitM := by
    rw [has_withAddr _ _ _ (by decide), show has fctlBitD fctlBitM = false by decide, Bool.or_false]
  have hlen := a.octets_length
  rcases hin with hany | ⟨hs, hp⟩
  · obtain ⟨b, hb, hwidth⟩ := (Option.any_eq_true _ _).mp hany
    have hba : b.isLong = a.isLong := eq_of_beq hwidth
    have hD : has f.fctl fctlBitD = true := by rw [s.shows.dst, hb]; rfl
    have hL : has f.fctl fctlBitL = a.isLong := by
      rw [s.shows.long, s.oneWidth.isLong hb, hba]
    have hsrc : ∀ t ∈ d.header.src, t.isLong = a.isLong := fun t ht =>
      (s.oneWidth b hb t ht).symm.trans hba
    have header := readHeader_setDstAddr_present f a hD hL
    rw [s.header, setDstAddr_eq] at header
    rw [setDstAddr_eq]
    refine s.setHeader (dstPos_ge _) (s.shows.setDstAddr a hsrc) ?_ hM header
      (Or.inr ⟨sameFields_dst hD hL, ?_⟩)
    · intro x hx t ht
      cases hx
      exact (hsrc t ht).symm
    · have hend : srcPos f.fctl = dstPos f.fctl + if a.isLong then 8 else 2 := by
        simp only [srcPos, hD, if_true, addrSz, hL]
      have hpay := payldPos_ge f.fctl
      omega
  · have hS : has f.fctl fctlBitS = false := by rw [s.shows.src, hs]; rfl
    have header := readHeader_setDstAddr f a hS
    have hsame : ({ d.header with dst := some a, src := none } : Header) =
        { d.header with dst := some a } := Header.ext rfl rfl hs.symm
    rw [s.header, hsame, setDstAddr_eq] at header
    rw [setDstAddr_eq]
    refine s.setHeader (dstPos_ge _) (s.shows.setDstAddr a fun t ht => ?_) ?_ hM header (Or.inl hp)
    · rw [hs] at ht
      cases ht
    · intro x hx t ht
      have ht : t ∈ d.header.src := ht
      rw [hs] at ht
      cases ht

theorem setSrcAddr (a : Addr) (hdst : d.header.dst.all (·.isLong == a.isLong))
    (hin : d.header.src.any (·.isLong == a.isLong) ∨ d.payld = none) :
    Spells (f.setSrcAddr a) { d with header := { d.header with src := some a } } := by
  have hM : has (withAddr f.fctl fctlBitS a.isLong) fctlBitM = has f.fctl fctlBitM := by
    rw [has_withAddr _ _ _ (by decide), show has fctlBitS fctlBitM = false by decide, Bool.or_false]
  have hlen := a.octets_length
  have hwidth : ∀ b ∈ d.header.dst, b.isLong = a.isLong := fun b hb =>
    eq_of_beq ((Option.all_eq_true _ _).mp hdst b hb)
  have hL : has f.fctl fctlBitD = true → has f.fctl fctlBitL = a.isLong := by
    intro hD
    rw [s.shows.dst] at hD
    obtain ⟨b, hb⟩ := Option.isSome_iff_exists.mp hD
    rw [s.shows.long, s.oneWidth.isLong hb, hwidth b hb]
  have header := readHeader_setSrcAddr f a hL
  rw [s.header, setSrcAddr_eq] at header
  rw [setSrcAddr_eq]
  refine s.setHeader ((dstPos_ge _).trans (srcPos_ge _)) (s.shows.setSrcAddr a) ?_ hM header ?_
  · intro x hx t ht
    cases ht
    exact hwidth x hx
  · refine hin.symm.imp_right fun hany => ?_
    obtain ⟨b, hb, hba⟩ := (Option.any_eq_true _ _).mp hany
    have hba : b.isLong = a.isLong := eq_of_beq hba
    have hS : has f.fctl fctlBitS = true := by rw [s.shows.src, hb]; rfl
    have hL : has f.fctl fctlBitL = a.isLong := by
      rw [s.shows.long, ← hba]
      simp only [Header.isLong, hb]
    have hend : payldPos f.fctl = srcPos f.fctl + if a.isLong then 8 else 2 := by
      simp only [payldPos, hS, if_true, addrSz, hL]
    exact ⟨sameFields_src hS hL, by omega⟩

theorem setPayld (p : Mem) (sz : Octet) {d' : Draft}
    (hd : d.edit (.set (.payld p sz)) = some d') : Spells (f.setPayld p sz).2 d' := by
  have hlen := s.shows.payldPos
  simp only [Draft.edit] at hd
  by_cases hroom : hmFrameSz ≤ d.header.len + sz.toNat
  · rw [if_pos hroom] at hd
    cases hd
    rw [setPayld_eq, if_neg (by rw [hlen]; omega)]
    exact s
  rw [if_neg hroom] at hd
  obtain ⟨hplace, hd⟩ := Option.ite_none_right_eq_some.mp hd
  cases hd
  have hset : f.setPayld p sz = (true, (f.setPayld p sz).2) := by
    rw [setPayld_eq, if_pos (by rw [hlen]; omega)]
  have m := setPayld_true hset
  generalize (f.setPayld p sz).2 = f' at m
  have h2 := payldPos_two f.fctl
  have hc : f'.fctl = f.fctl := m.fctl
  have hc' : f'.frm frmIdxFctl = f.frm frmIdxFctl := hc
  have hget : (get p 0 sz.toNat).length = sz.toNat := get_length _ _ _
  constructor
  · rw [m.before (show frmIdxPid < _ by simp only [frmIdxPid]; omega)]
    exact s.pid
  · exact s.oneWidth
  · rw [hc]
    exact s.shows
  · rw [hc]
    exact s.multihop
  · rw [← s.header]
    exact readHeader_congr (.of_eq hc) fun i _ hi => m.before hi
  · exact m.micSz.trans s.micSz
  · exact m.rxdSz.trans s.rxdSz
  · intro q hq
    cases hq
    refine ⟨?_, ?_, ?_, ?_, ?_⟩
    · rw [m.offset, hc]
    · rw [m.payldSz, hget]
    · rw [hc, hget]
      exact m.room
    · rw [hget]
      exact (congrArg (fun c => get f'.frm (payldPos c) sz.toNat) hc').trans m.payld
    · rw [hget]
      rcases hplace with hnone | hsame
      · have hM : has (f.frm frmIdxFctl) fctlBitM = false := by
          have hsome := s.multihop
          rw [hnone] at hsome
          exact hsome
        simp only [readMessage, hc', hM, hnone]
        rfl
      · -- Hops and TxAddr stay where a payload of the old size ends
        obtain ⟨q, hq, hqlen⟩ := (Option.any_eq_true _ _).mp hsame
        have hqlen : q.length = sz.toNat := eq_of_beq hqlen
        have hold := (s.filled q hq).reads.2
        rw [hqlen] at hold
        rw [← hold]
        have hkeep : ∀ i, payldPos f.fctl + sz.toNat ≤ i → f'.frm i = f.frm i := fun i hi => by
          rw [m.frm, put_outside _ _ _ _ (Or.inr (by rw [hget]; exact hi))]
        have hkeep' : ∀ i, payldPos (f.frm frmIdxFctl) + sz.toNat ≤ i → f'.frm i = f.frm i := hkeep
        simp only [readMessage, hc']
        rw [hkeep' _ (Nat.le_refl _), Addr.read_congr fun k _ => hkeep' _ (by omega)]
  · intro hnone
    cases hnone

theorem partsSz {p : List Octet} (hp : d.payld = some p) :
    f.partsSz = d.header.len + p.length := by
  have hfilled := s.filled p hp
  rw [partsSz_of hfilled.offset s.micSz, hfilled.payldSz, s.shows.payldPos]

theorem setMhop (hops : Octet) (a : Addr) {d' : Draft}
    (hd : d.edit (.set (.mhop hops a)) = some d') : Spells (f.setMhop hops a).2 d' := by
  obtain ⟨p, hp, hd⟩ := Option.map_eq_some_iff.mp hd
  have hfilled := s.filled p hp
  have hparts := s.partsSz hp
  have h2 := payldPos_two f.fctl
  have hlen := s.shows.payldPos
  have hM : has f.fctl fctlBitM = false ↔ d.mhop = none := by
    rw [s.multihop, Option.isSome_eq_false_iff, Option.isNone_iff_eq_none]
  by_cases hok : d.mhop = none ∧ d.header.isLong = a.isLong ∧
      d.header.len + p.length + (1 + a.octets.length) ≤ hmFrameSz
  · rw [if_pos hok] at hd
    subst hd
    have hset : f.setMhop hops a = (true, (f.setMhop hops a).2) := by
      rw [setMhop_put, hparts, s.shows.long, if_pos ⟨hM.mpr hok.1, hok.2⟩]
    have m := setMhop_true (by rw [hparts]; omega) hset
    generalize (f.setMhop hops a).2 = f' at m
    have hmessage := m.message (by rw [hparts, hlen, hfilled.payldSz])
    rw [m.payldSz, hfilled.payldSz] at hmessage
    have e : SameFields f.fctl f'.fctl := by
      rw [m.fctl]
      exact sameFields_multihop f.fctl
    constructor
    · exact (m.before (by decide) (show 0 < _ by rw [hparts]; omega)).trans s.pid
    · exact s.oneWidth
    · exact s.shows.same e
    · rw [m.fctl, has_or, show has fctlBitM fctlBitM = true by decide, Bool.or_true]
      rfl
    · exact (congrArg Message.header hmessage).trans s.header
    · rw [m.store]
      exact s.micSz
    · rw [m.store]
      exact s.rxdSz
    · intro q hq
      have hq : d.payld = some q := hq
      rw [hp] at hq
      cases hq
      refine ⟨m.offset hfilled.offset, ?_, ?_, ?_, ?_⟩
      · rw [m.payldSz, hfilled.payldSz]
      · rw [e.payldPos]
        exact hfilled.room
      · exact (congrArg Message.payld hmessage).trans hfilled.reads.1
      · exact congrArg Message.mhop hmessage
    · intro hnone
      have hnone : d.payld = none := hnone
      rw [hp] at hnone
      cases hnone
  · rw [if_neg hok] at hd
    subst hd
    rw [setMhop_put, hparts, s.shows.long, if_neg fun hall => hok ⟨hM.mp hall.1, hall.2⟩]
    exact s

theorem setPayldSz (sz : Octet) {d' : Draft} (hd : d.edit (.payldSz sz) = some d') :
    Spells (f.setPayldSz sz) d' := by
  obtain ⟨⟨hnone, hany⟩, hd⟩ := Option.ite_none_right_eq_some.mp hd
  cases hd
  obtain ⟨p, hp, hle⟩ := (Option.any_eq_true _ _).mp hany
  have hle : sz.toNat ≤ p.length := of_decide_eq_true hle
  have hfilled := s.filled p hp
  have hsz : (p.take sz.toNat).length = sz.toNat := by rw [List.length_take]; omega
  refine ⟨s.pid, s.oneWidth, s.shows, s.multihop, s.header, s.micSz, s.rxdSz, ?_, fun _ => hnone⟩
  intro q hq
  have hq : d.payld.map (·.take sz.toNat) = some q := hq
  rw [hp, Option.map_some] at hq
  cases hq
  refine ⟨hfilled.offset, ?_, ?_, ?_, ?_⟩
  · rw [hsz]
    rfl
  · have hroom := hfilled.room
    rw [hsz]
    exact lt_of_le_of_lt (Nat.add_le_add_left hle _) hroom
  · have hreads : get f.frm (payldPos f.fctl) p.length = p := hfilled.reads.1
    rw [hsz]
    calc get f.frm (payldPos f.fctl) sz.toNat
        = (get f.frm (payldPos f.fctl) p.length).take sz.toNat := (get_take _ _ hle).symm
      _ = p.take sz.toNat := by rw [hreads]
  · have hM : has (f.frm frmIdxFctl) fctlBitM = false := by
      have hsome := s.multihop
      rw [hnone] at hsome
      exact hsome
    simp only [readMessage, HeyMacFrame.setPayldSz, hnone]
    exact if_neg (by rw [← Bool.not_eq_true] at hM; exact hM)

/-- A frame that was not received is not parsed. -/
theorem parse : Spells f.parse.2 d := by
  have hrx : f.rxdSz.toNat = 0 := by rw [s.rxdSz]; rfl
  rw [parse_eq f s.micSz, hrx, if_neg (Nat.not_lt_zero _), if_neg (Nat.not_lt_zero _)]
  exact s

/-- A call in place does to the frame what it does to the draft. -/
theorem edit (c : FrameCall) {d' : Draft} (hd : d.edit c = some d') : Spells (c.run f) d' := by
  cases c with
  | set c =>
    cases c with
    | protocol p =>
      cases hd
      exact s.setProtocol p
    | netId n =>
      obtain ⟨hin, hd⟩ := Option.ite_none_right_eq_some.mp hd
      cases hd
      exact s.setNetId n hin
    | dstAddr a =>
      obtain ⟨hin, hd⟩ := Option.ite_none_right_eq_some.mp hd
      cases hd
      exact s.setDstAddr a hin
    | srcAddr a =>
      obtain ⟨⟨hdst, hin⟩, hd⟩ := Option.ite_none_right_eq_some.mp hd
      cases hd
      exact s.setSrcAddr a hdst hin
    | payld p sz => exact s.setPayld p sz hd
    | mhop hops a => exact s.setMhop hops a hd
  | payldSz sz => exact s.setPayldSz sz hd
  | parse =>
    cases hd
    exact s.parse
  | cmdTxt txt sz => cases hd
  | cmdCbcn caps status => cases hd

theorem complete (hp : d.pidfld = .csmaV0) {p : List Octet} (hpd : d.payld = some p) :
    Complete f ⟨d.header, p, d.mhop⟩ := by
  have hfilled := s.filled p hpd
  refine ⟨?_, ?_, hfilled.offset, s.micSz, s.rxdSz, ?_⟩
  · rw [hfilled.payldSz]
    exact Message.ext s.header hfilled.reads.1 hfilled.reads.2
  · rw [s.pid, hp]
  · rw [hfilled.payldSz]
    exact hfilled.room

theorem getFrmSz {p : List Octet} (hp : d.payld = some p) :
    f.getFrmSz.toNat = d.header.len + p.length + mhopSz d.mhop := by
  have hfilled := s.filled p hp
  have sized : Sized f := by
    refine ⟨hfilled.offset, s.micSz, s.rxdSz, ?_⟩
    rw [hfilled.payldSz]
    exact hfilled.room
  rw [sized.getFrmSz, hfilled.payldSz, hfilled.mhopLen, s.shows.payldPos]

end Spells

/-- By induction on the calls, each of which finds the frame of the draft. -/
theorem runs_spell {f : HeyMacFrame} {d d' : Draft} (s : Spells f d) {calls : List FrameCall}
    (hd : calls.foldlM Draft.edit d = some d') : Spells (FrameCall.runs f calls) d' := by
  induction calls generalizing f d with
  | nil =>
    cases hd
    exact s
  | cons c calls ih =>
    rw [List.foldlM_cons] at hd
    obtain ⟨e, he, hrest⟩ := Option.bind_eq_some_iff.mp hd
    exact ih (s.edit c he) hrest

/-- The sender changes its mind about SrcAddr once there is a payload, about the payload
once there are Hops and TxAddr, and sets the protocol last. -/
def secondThoughts : List FrameCall :=
  [.set (.srcAddr (.short 1)), .set (.payld (fun _ => 6) 3), .set (.srcAddr (.short 2)),
    .set (.mhop 5 (.short 9)), .set (.payld (fun _ => 7) 3), .parse, .set (.protocol .csmaV0)]

end HeyMacFrame
