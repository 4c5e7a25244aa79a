import HeyMacMbed.Frame

/-!
# The layout a frame's flags imply

NetId, DstAddr, SrcAddr, payload, Hops and TxAddr follow FCTL in this order,
absent fields taking no room. The positions below are functions of the FCTL
octet alone; the setters, which recompute them one by one, are shown to store
at exactly these positions.
-/

open Bits Octets

/-- An address of either width, as the overloads take them. -/
inductive Addr where
  | short (a : BitVec 16)
  | long (a : BitVec 64)
  deriving DecidableEq

namespace Addr

def isLong : Addr → Bool
  | .short _ => false
  | .long _ => true

def octets : Addr → List Octet
  | .short a => be a 2
  | .long a => be a 8

/-- The address at `pos`, of the width the L flag tells. -/
def read (m : Mem) (pos : Nat) (l : Bool) : Addr :=
  if l then .long (ofBe 64 (get m pos 8)) else .short (ofBe 16 (get m pos 2))

@[simp] theorem octets_length (a : Addr) : a.octets.length = if a.isLong then 8 else 2 := by
  cases a <;> simp [octets, isLong]

theorem read_of_get {m : Mem} {pos : Nat} {a : Addr}
    (h : get m pos a.octets.length = a.octets) : read m pos a.isLong = a := by
  cases a with
  | short a =>
    have hb : get m pos 2 = be a 2 := h
    simp [read, isLong, hb, ofBe_be]
  | long a =>
    have hb : get m pos 8 = be a 8 := h
    simp [read, isLong, hb, ofBe_be]

theorem read_congr {m m' : Mem} {pos : Nat} {l : Bool}
    (h : ∀ k, k < (if l then 8 else 2) → m (pos + k) = m' (pos + k)) :
    read m pos l = read m' pos l := by
  have same : get m pos (if l then 8 else 2) = get m' pos (if l then 8 else 2) := get_congr h
  cases l with
  | false => exact congrArg (fun bs => Addr.short (ofBe 16 bs)) same
  | true => exact congrArg (fun bs => Addr.long (ofBe 64 bs)) same

end Addr

@[ext] structure Header where
  netId : Option (BitVec 16)
  dst : Option Addr
  src : Option Addr
  deriving DecidableEq

namespace Header

/-- The addresses present have one width. -/
def OneWidth (h : Header) : Prop := ∀ d ∈ h.dst, ∀ s ∈ h.src, d.isLong = s.isLong

/-- The width the last address set leaves in the L flag. -/
def isLong (h : Header) : Bool :=
  match h.src with
  | some s => s.isLong
  | none => match h.dst with
    | some d => d.isLong
    | none => false

end Header

/-- All a frame carries. -/
@[ext] structure Message where
  header : Header
  payld : List Octet
  mhop : Option (Octet × Addr)
  deriving DecidableEq

namespace HeyMacFrame

def addrSz (c : Octet) : Nat := if has c fctlBitL then 8 else 2

def dstPos (c : Octet) : Nat := frmIdxNetid + if has c fctlBitN then 2 else 0

def srcPos (c : Octet) : Nat := dstPos c + if has c fctlBitD then addrSz c else 0

def payldPos (c : Octet) : Nat := srcPos c + if has c fctlBitS then addrSz c else 0

def mhopLen (c : Octet) : Nat := if has c fctlBitM then 1 + addrSz c else 0

/-- The header the octets of a frame spell under its own flags. -/
def readHeader (m : Mem) : Header where
  netId := if has (m frmIdxFctl) fctlBitN then some (ofBe 16 (get m frmIdxNetid 2)) else none
  dst := if has (m frmIdxFctl) fctlBitD then
    some (Addr.read m (dstPos (m frmIdxFctl)) (has (m frmIdxFctl) fctlBitL)) else none
  src := if has (m frmIdxFctl) fctlBitS then
    some (Addr.read m (srcPos (m frmIdxFctl)) (has (m frmIdxFctl) fctlBitL)) else none

/-- The message the octets of a frame with `payldSz` octets of payload spell. -/
def readMessage (m : Mem) (payldSz : Nat) : Message where
  header := readHeader m
  payld := get m (payldPos (m frmIdxFctl)) payldSz
  mhop := if has (m frmIdxFctl) fctlBitM then
    some (m (payldPos (m frmIdxFctl) + payldSz),
      Addr.read m (payldPos (m frmIdxFctl) + payldSz + 1) (has (m frmIdxFctl) fctlBitL)) else none

/-- FCTL after an address overload of the given width has set its presence bit. -/
def withAddr (c bit : Octet) (long : Bool) : Octet :=
  if long then (c ||| bit) ||| fctlBitL else (c ||| bit) &&& ~~~fctlBitL

@[simp] theorem has_withAddr_L (c bit : Octet) (long : Bool) :
    has (withAddr c bit long) fctlBitL = long := by
  cases long with
  | false => exact has_clear_same _ _
  | true =>
    have hl : has fctlBitL fctlBitL = true := by decide
    simp [withAddr, hl]

theorem has_withAddr (c bit : Octet) (long : Bool) {m : Octet} (hm : has fctlBitL m = false) :
    has (withAddr c bit long) m = (has c m || has bit m) := by
  cases long with
  | false => simp [withAddr, has_clear_of_disjoint hm]
  | true => simp [withAddr, hm]

/-! Stores into the frame, seen through `_frm`. -/

@[simp] theorem frm_setFrm (f : HeyMacFrame) (i : Nat) (v : Octet) :
    (f.setFrm i v).frm = Function.update f.frm i v := by
  funext j
  by_cases h : j = i
  · subst h
    simp [frm, setFrm]
  · simp [frm, setFrm, h]

@[simp] theorem frm_putFrm (f : HeyMacFrame) (off : Nat) (bs : List Octet) :
    (f.putFrm off bs).frm = put f.frm off bs := by
  induction bs generalizing f off with
  | nil => rfl
  | cons b bs ih =>
    rw [put, ← frm_setFrm, ← ih]
    rfl

/-- Stores a field at `p` and makes `c` the FCTL octet. -/
def store (f : HeyMacFrame) (p : Nat) (bs : List Octet) (c : Octet) : HeyMacFrame :=
  (f.putFrm p bs).setFrm frmIdxFctl c

section Store
variable (f : HeyMacFrame) {p : Nat} (bs : List Octet) (c : Octet)

@[simp] theorem store_payldOffset : (f.store p bs c).payldOffset = f.payldOffset := rfl
@[simp] theorem store_payldSz : (f.store p bs c).payldSz = f.payldSz := rfl
@[simp] theorem store_micSz : (f.store p bs c).micSz = f.micSz := rfl
@[simp] theorem store_rxdSz : (f.store p bs c).rxdSz = f.rxdSz := rfl

@[simp] theorem store_fctl : (f.store p bs c).frm frmIdxFctl = c := by
  simp [store]

theorem store_get (hp : 2 ≤ p) : get (f.store p bs c).frm p bs.length = bs := by
  have h : get (f.store p bs c).frm p bs.length = get (put f.frm p bs) p bs.length := by
    apply get_congr
    intro k _
    rw [store, frm_setFrm, frm_putFrm]
    exact Function.update_of_ne (by simp only [frmIdxFctl]; omega) _ _
  rw [h, get_put_same]

theorem store_other {i : Nat} (hc : i ≠ frmIdxFctl) (hi : i < p ∨ p + bs.length ≤ i) :
    (f.store p bs c).frm i = f.frm i := by
  rw [store, frm_setFrm, Function.update_of_ne hc, frm_putFrm, put_outside _ _ _ _ hi]

/-- The octets of the buffer beside FCTL and the field. -/
theorem store_buf {k : Nat} (hc : k ≠ sFrameStart + frmIdxFctl)
    (hk : k < sFrameStart + p ∨ sFrameStart + p + bs.length ≤ k) :
    (f.store p bs c).buf k = f.buf k := by
  show Function.update (put f.buf (sFrameStart + p) bs) (sFrameStart + frmIdxFctl) c k = f.buf k
  rw [Function.update_of_ne hc, put_outside _ _ _ _ hk]

end Store

/-- `set_dst_addr`, by the width of its argument. -/
def setDstAddr (f : HeyMacFrame) : Addr → HeyMacFrame
  | .short a => f.setDstAddr16 a
  | .long a => f.setDstAddr64 a

/-- `set_src_addr`, by the width of its argument. -/
def setSrcAddr (f : HeyMacFrame) : Addr → HeyMacFrame
  | .short a => f.setSrcAddr16 a
  | .long a => f.setSrcAddr64 a

/-- `set_mhop`, by the width of its address. -/
def setMhop (f : HeyMacFrame) (hops : Octet) : Addr → Bool × HeyMacFrame
  | .short a => f.setMhop16 hops a
  | .long a => f.setMhop64 hops a

theorem and_ff (x : Octet) : x &&& 255#8 = x := BitVec.and_allOnes

theorem shortOctets_eq (a : BitVec 16) : shortOctets a = be a 2 := by
  simp [shortOctets, be, and_ff]

theorem longOctets_eq (a : BitVec 64) : longOctets a = be a 8 := by
  simp [longOctets, be, and_ff]

theorem putFrm_fctl (f : HeyMacFrame) {p : Nat} (bs : List Octet) (hp : 2 ≤ p) :
    (f.putFrm p bs).fctl = f.fctl := by
  rw [fctl, frm_putFrm, put_outside _ _ _ _ (Or.inl (show frmIdxFctl < p from hp))]
  rfl

theorem setFrm_fctl (f : HeyMacFrame) (c : Octet) : (f.setFrm frmIdxFctl c).fctl = c := by
  simp [fctl]

theorem setFrm_twice (f : HeyMacFrame) (i : Nat) (v v' : Octet) :
    (f.setFrm i v).setFrm i v' = f.setFrm i v' := by
  simp [setFrm]

theorem dstPos_ge (c : Octet) : 2 ≤ dstPos c := Nat.le_add_right _ _

theorem srcPos_ge (c : Octet) : dstPos c ≤ srcPos c := Nat.le_add_right _ _

theorem payldPos_ge (c : Octet) : srcPos c ≤ payldPos c := Nat.le_add_right _ _

theorem payldPos_two (c : Octet) : 2 ≤ payldPos c :=
  (dstPos_ge c).trans ((srcPos_ge c).trans (payldPos_ge c))

theorem addrSz_le (c : Octet) : addrSz c ≤ 8 := by
  unfold addrSz
  split <;> omega

theorem payldPos_le (c : Octet) : payldPos c ≤ 20 := by
  have hs := addrSz_le c
  simp only [payldPos, srcPos, dstPos, frmIdxNetid]
  split <;> split <;> split <;> omega

theorem setNetId_eq (f : HeyMacFrame) (n : BitVec 16) :
    f.setNetId n = f.store frmIdxNetid (be n 2) (f.fctl ||| fctlBitN) := by
  have hbs : [(n >>> 8).setWidth 8, (n &&& 0xFF).setWidth 8] = be n 2 := by
    simp [be, and_ff]
  simp only [setNetId, store, hbs, putFrm_fctl f _ (show 2 ≤ frmIdxNetid from Nat.le_refl 2)]

/-- The 8-bit offsets of the source, which recomputes them in every function. -/
def dstOffset (c : Octet) : Octet :=
  let offset : Octet := BitVec.ofNat 8 frmIdxNetid
  if has c fctlBitN then offset + 2 else offset

def srcOffset (c : Octet) : Octet :=
  let offset := dstOffset c
  let offset := if has c fctlBitD then
    offset + (if has c fctlBitL then 8 else 2) else offset
  if has c fctlBitI then offset + getIeSz offset else offset

def payldOffsetOf (c : Octet) : Octet :=
  let offset := srcOffset c
  if has c fctlBitS then offset + (if has c fctlBitL then 8 else 2) else offset

theorem dstOffset_toNat (c : Octet) : (dstOffset c).toNat = dstPos c := by
  unfold dstOffset dstPos
  cases has c fctlBitN <;> rfl

theorem srcOffset_toNat (c : Octet) : (srcOffset c).toNat = srcPos c := by
  unfold srcOffset srcPos dstOffset dstPos addrSz getIeSz
  cases has c fctlBitN <;> cases has c fctlBitD <;> cases has c fctlBitL <;>
    cases has c fctlBitI <;> rfl

theorem payldOffsetOf_toNat (c : Octet) : (payldOffsetOf c).toNat = payldPos c := by
  have hsrc := srcOffset_toNat c
  have hpos := payldPos_le c
  unfold payldOffsetOf
  unfold payldPos addrSz at *
  cases has c fctlBitS <;> cases has c fctlBitL <;>
    simp_all [BitVec.toNat_add] <;> omega

/-- An address overload stores the octets, then updates FCTL twice. -/
theorem put_then_flags (f : HeyMacFrame) {p : Nat} (hp : 2 ≤ p) (bs : List Octet)
    (g h : Octet → Octet) :
    (let f := f.putFrm p bs
     let f := f.setFrm frmIdxFctl (g f.fctl)
     f.setFrm frmIdxFctl (h f.fctl)) = f.store p bs (h (g f.fctl)) := by
  simp only [setFrm_twice, setFrm_fctl, putFrm_fctl f bs hp]
  rfl

theorem setDstAddr_eq (f : HeyMacFrame) (a : Addr) :
    f.setDstAddr a =
      f.store (dstPos f.fctl) a.octets (withAddr f.fctl fctlBitD a.isLong) := by
  have hp : 2 ≤ (dstOffset f.fctl).toNat := (dstOffset_toNat _).symm ▸ dstPos_ge _
  rw [← dstOffset_toNat]
  cases a with
  | short a =>
    rw [Addr.octets, ← shortOctets_eq]
    exact put_then_flags f hp _ (· ||| fctlBitD) (· &&& ~~~fctlBitL)
  | long a =>
    rw [Addr.octets, ← longOctets_eq]
    exact put_then_flags f hp _ (· ||| fctlBitD) (· ||| fctlBitL)

theorem setSrcAddr_eq (f : HeyMacFrame) (a : Addr) :
    f.setSrcAddr a =
      f.store (srcPos f.fctl) a.octets (withAddr f.fctl fctlBitS a.isLong) := by
  have hp : 2 ≤ (srcOffset f.fctl).toNat :=
    (srcOffset_toNat _).symm ▸ (dstPos_ge _).trans (srcPos_ge _)
  rw [← srcOffset_toNat]
  cases a with
  | short a =>
    rw [Addr.octets, ← shortOctets_eq]
    exact put_then_flags f hp _ (· ||| fctlBitS) (· &&& ~~~fctlBitL)
  | long a =>
    rw [Addr.octets, ← longOctets_eq]
    exact put_then_flags f hp _ (· ||| fctlBitS) (· ||| fctlBitL)

theorem setPayld_eq (f : HeyMacFrame) (payld : Mem) (sz : Octet) :
    f.setPayld payld sz =
      if payldPos f.fctl + sz.toNat < hmFrameSz then
        (true, { f.putFrm (payldPos f.fctl) (get payld 0 sz.toNat) with
          payldOffset := payldOffsetOf f.fctl, payldSz := sz })
      else (false, f) := by
  rw [← payldOffsetOf_toNat]
  rfl

/-- The size of the parts of a frame that was built, not received. -/
def partsSz (f : HeyMacFrame) : Nat := f.payldOffset.toNat + f.payldSz.toNat + f.micSz.toNat

/-- Hops and TxAddr where the sizes of the frame put them, then M into what FCTL holds. -/
def putMhop (f : HeyMacFrame) (hops : Octet) (a : Addr) : HeyMacFrame :=
  let f := f.putFrm f.partsSz (hops :: a.octets)
  f.setFrm frmIdxFctl (f.fctl ||| fctlBitM)

/-- `set_mhop` of either width, whatever the sizes of the frame: it is not multihop yet, the
L flag has the overload's width, and the fields fit under the source's bound. -/
theorem setMhop_put (f : HeyMacFrame) (hops : Octet) (a : Addr) :
    f.setMhop hops a =
      if has f.fctl fctlBitM = false ∧ has f.fctl fctlBitL = a.isLong ∧
          f.partsSz + (1 + a.octets.length) ≤ hmFrameSz then
        (true, f.putMhop hops a)
      else (false, f) := by
  have hput : ∀ bs, f.partsSz < 256 →
      (let g := f.putFrm (BitVec.ofNat 8 f.partsSz).toNat (hops :: bs)
       g.setFrm frmIdxFctl (g.fctl ||| fctlBitM)) =
      (let g := f.putFrm f.partsSz (hops :: bs)
       g.setFrm frmIdxFctl (g.fctl ||| fctlBitM)) := by
    intro bs hlt
    have hoff : (BitVec.ofNat 8 f.partsSz).toNat = f.partsSz := Nat.mod_eq_of_lt hlt
    rw [hoff]
  cases hM : has f.fctl fctlBitM with
  | true => cases a <;> simp [setMhop, setMhop16, setMhop64, hM]
  | false =>
    cases a with
    | short a =>
      cases hL : has f.fctl fctlBitL with
      | true => simp [setMhop, setMhop16, hL, Addr.isLong]
      | false =>
        by_cases hfit : f.partsSz + 3 ≤ hmFrameSz
        · have hs := hput (shortOctets a) (by simp only [hmFrameSz] at hfit; omega)
          rw [shortOctets_eq] at hs
          simp only [partsSz] at hfit hs
          simp only [setMhop, setMhop16, hM, hL, shortOctets_eq, Addr.octets, Addr.isLong, putMhop,
            partsSz]
          simpa [hfit] using hs
        · simp only [partsSz] at hfit
          simp [setMhop, setMhop16, hM, hL, Addr.octets, Addr.isLong, partsSz, hfit]
    | long a =>
      cases hL : has f.fctl fctlBitL with
      | false => simp [setMhop, setMhop64, hL, Addr.isLong]
      | true =>
        by_cases hfit : f.partsSz + 9 ≤ hmFrameSz
        · have hs := hput (longOctets a) (by simp only [hmFrameSz] at hfit; omega)
          rw [longOctets_eq] at hs
          simp only [partsSz] at hfit hs
          simp only [setMhop, setMhop64, hM, hL, longOctets_eq, Addr.octets, Addr.isLong, putMhop,
            partsSz]
          simpa [hfit] using hs
        · simp only [partsSz] at hfit
          simp [setMhop, setMhop64, hM, hL, Addr.octets, Addr.isLong, partsSz, hfit]

/-- Behind the flags the fields leave FCTL alone. -/
theorem setMhop_eq (f : HeyMacFrame) (hops : Octet) (a : Addr) (hp : 2 ≤ f.partsSz) :
    f.setMhop hops a =
      if has f.fctl fctlBitM = false ∧ has f.fctl fctlBitL = a.isLong ∧
          f.partsSz + (1 + a.octets.length) ≤ hmFrameSz then
        (true, f.store f.partsSz (hops :: a.octets) (f.fctl ||| fctlBitM))
      else (false, f) := by
  have hstore : f.putMhop hops a =
      f.store f.partsSz (hops :: a.octets) (f.fctl ||| fctlBitM) := by
    simp only [putMhop, putFrm_fctl f _ hp]
    rfl
  rw [setMhop_put, hstore]

theorem mhopLen_le (c : Octet) : mhopLen c ≤ 9 := by
  have hs := addrSz_le c
  unfold mhopLen
  split <;> omega

theorem mhopSz_toNat (c : Octet) :
    (if has c fctlBitM then (if has c fctlBitL then 1 + 8 else 1 + 2) else 0 : Octet).toNat =
      mhopLen c := by
  unfold mhopLen addrSz
  cases has c fctlBitM <;> cases has c fctlBitL <;> rfl

/-- The 16-bit payload size of `parse` does not wrap. -/
theorem ofInt16_toInt {z : Int} (hlo : -30 ≤ z) (hhi : z ≤ 255) :
    (BitVec.ofInt 16 z).toInt = z := by
  rw [BitVec.toInt_ofInt]
  exact Int.bmod_eq_of_le (by omega) (by omega)

/-- `parse` with its offset and multihop size named. -/
theorem parse_unfold (f : HeyMacFrame) (hmic : f.micSz = 0) :
    f.parse =
      if payldOffsetOf f.fctl < f.rxdSz then
        let payldSz : BitVec 16 := BitVec.ofInt 16
          ((f.rxdSz.toNat - mhopLen f.fctl - f.micSz.toNat : Int) - (payldOffsetOf f.fctl).toNat)
        if 0 < payldSz.toInt then
          (f.validateFields, { f with
            payldOffset := payldOffsetOf f.fctl, payldSz := payldSz.setWidth 8 })
        else (false, { f with payldOffset := payldOffsetOf f.fctl })
      else (false, f) := by
  have hf : ∀ o, (if has f.fctl fctlBitI = true then { f with micSz := getMicSz o } else f) = f := by
    intro o
    cases f with
    | mk buf po ps ms rs =>
      have hms : ms = 0 := hmic
      subst hms
      split <;> rfl
  rw [← mhopSz_toNat]
  simp only [parse, hf]
  rfl

/-- `parse` on a frame without a MIC, as the receiving constructor leaves it. -/
theorem parse_eq (f : HeyMacFrame) (hmic : f.micSz = 0) :
    f.parse =
      if payldPos f.fctl + mhopLen f.fctl < f.rxdSz.toNat then
        (f.validateFields, { f with
          payldOffset := payldOffsetOf f.fctl
          payldSz := BitVec.ofNat 8 (f.rxdSz.toNat - mhopLen f.fctl - payldPos f.fctl) })
      else if payldPos f.fctl < f.rxdSz.toNat then
        (false, { f with payldOffset := payldOffsetOf f.fctl })
      else (false, f) := by
  have hpos := payldPos_le f.fctl
  have hmh := mhopLen_le f.fctl
  have hrx := f.rxdSz.isLt
  have hmic' : f.micSz.toNat = 0 := by rw [hmic]; rfl
  rw [parse_unfold f hmic]
  simp only [BitVec.lt_def, payldOffsetOf_toNat, hmic']
  by_cases hoff : payldPos f.fctl < f.rxdSz.toNat
  · have hint := ofInt16_toInt
      (z := (f.rxdSz.toNat - mhopLen f.fctl - (0 : Nat) : Int) - payldPos f.fctl)
      (by omega) (by omega)
    by_cases hacc : payldPos f.fctl + mhopLen f.fctl < f.rxdSz.toNat
    · have hz : (f.rxdSz.toNat - mhopLen f.fctl - (0 : Nat) : Int) - payldPos f.fctl =
          ((f.rxdSz.toNat - mhopLen f.fctl - payldPos f.fctl : Nat) : Int) := by omega
      rw [if_pos hoff, if_pos hacc, if_pos (by rw [hint]; omega), hz, BitVec.ofInt_natCast]
      simp
    · rw [if_pos hoff, if_neg hacc, if_neg (by rw [hint]; omega), if_pos hoff]
  · rw [if_neg hoff, if_neg (by omega), if_neg hoff]

end HeyMacFrame
