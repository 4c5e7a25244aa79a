import HeyMacMbed.Bits
import HeyMacMbed.Octets

/-!
# The radio frame and its buffer

A frame object holds a pointer to its buffer and four sizes. The buffer is a
memory indexed from the object's `_buf`; its first octet is left for the SPI
command, and `_frm` starts one octet in. Sizes and offsets are the source's
8-bit and 16-bit integers, and room checks are made in `int` as C promotes them.
-/

open Bits Octets

/-- Protocol ID (PID) field. -/
inductive HmPidfld where
  | invalid
  | csmaV0
  deriving DecidableEq

def HmPidfld.code : HmPidfld → Octet
  | .invalid => 0
  | .csmaV0 => 0xE4

/-- SPI command and the largest FIFO load. -/
def hmFrameSz : Nat := 1 + 256

structure HeyMacFrame where
  buf : Mem
  payldOffset : Octet
  payldSz : Octet
  micSz : Octet
  rxdSz : Octet

namespace HeyMacFrame

def frmIdxPid : Nat := 0
def frmIdxFctl : Nat := 1
def frmIdxNetid : Nat := 2

/-- The bits of FCTL: pending, multihop, SrcAddr, IEs, DstAddr, NetId, long
addressing, extended. -/
def fctlBitP : Octet := 1 <<< 0
def fctlBitM : Octet := 1 <<< 1
def fctlBitS : Octet := 1 <<< 2
def fctlBitI : Octet := 1 <<< 3
def fctlBitD : Octet := 1 <<< 4
def fctlBitN : Octet := 1 <<< 5
def fctlBitL : Octet := 1 <<< 6
def fctlBitX : Octet := 1 <<< 7

def sFrameStart : Nat := 1

/-- The octet `_frm[i]`. -/
def frm (f : HeyMacFrame) (i : Nat) : Octet := f.buf (sFrameStart + i)

/-- The store `_frm[i] = v`. -/
def setFrm (f : HeyMacFrame) (i : Nat) (v : Octet) : HeyMacFrame :=
  { f with buf := Function.update f.buf (sFrameStart + i) v }

/-- The stores `_frm[off] = ..., _frm[off + 1] = ..., ...`. -/
def putFrm (f : HeyMacFrame) (off : Nat) (bs : List Octet) : HeyMacFrame :=
  { f with buf := put f.buf (sFrameStart + off) bs }

def fctl (f : HeyMacFrame) : Octet := f.frm frmIdxFctl

/-- `HeyMacFrame(buf, sz)`, the frame of a buffer holding `sz` received octets. -/
def ofBuf (buf : Mem) (sz : Octet) : HeyMacFrame :=
  let f : HeyMacFrame := ⟨buf, 0, 0, 0, sz⟩
  if sz = 0 then
    (f.setFrm frmIdxPid HmPidfld.invalid.code).setFrm frmIdxFctl 0
  else f

/-- `HeyMacFrame()`, with the buffer the pool returned. -/
def new (buf : Mem) : HeyMacFrame := ofBuf buf 0

def getFrmSz (f : HeyMacFrame) : BitVec 16 :=
  if f.rxdSz ≠ 0 then f.rxdSz.setWidth 16
  else
    let mhopSz : Octet :=
      if has f.fctl fctlBitM then (if has f.fctl fctlBitL then 1 + 8 else 1 + 2) else 0
    BitVec.ofNat 16 (f.payldOffset.toNat + f.payldSz.toNat + f.micSz.toNat + mhopSz.toNat)

def getBufSz (f : HeyMacFrame) : BitVec 16 := BitVec.ofNat 16 sFrameStart + f.getFrmSz

/-- `get_frm()`, as an index into the buffer: `&_frm[s_frame_start]`. -/
def getFrm : Nat := sFrameStart + sFrameStart

def setProtocol (f : HeyMacFrame) (pidfld : HmPidfld) : HeyMacFrame :=
  f.setFrm frmIdxPid pidfld.code

def setNetId (f : HeyMacFrame) (netId : BitVec 16) : HeyMacFrame :=
  let f := f.putFrm frmIdxNetid [(netId >>> 8).setWidth 8, (netId &&& 0xFF).setWidth 8]
  f.setFrm frmIdxFctl (f.fctl ||| fctlBitN)

/-- The size of all of the IEs (not implemented by the source yet). -/
def getIeSz (_ieOffset : Octet) : Octet := 0

/-- The size of the MIC as determined from an IE (not implemented by the source yet). -/
def getMicSz (_ieOffset : Octet) : Octet := 0

/-- The two octets of a short address, as every overload stores them. -/
def shortOctets (a : BitVec 16) : List Octet :=
  [((a >>> 8) &&& 0xFF).setWidth 8, ((a >>> 0) &&& 0xFF).setWidth 8]

/-- The eight octets of a long address, as every overload stores them. -/
def longOctets (a : BitVec 64) : List Octet :=
  [((a >>> 56) &&& 0xFF).setWidth 8, ((a >>> 48) &&& 0xFF).setWidth 8,
   ((a >>> 40) &&& 0xFF).setWidth 8, ((a >>> 32) &&& 0xFF).setWidth 8,
   ((a >>> 24) &&& 0xFF).setWidth 8, ((a >>> 16) &&& 0xFF).setWidth 8,
   ((a >>> 8) &&& 0xFF).setWidth 8, ((a >>> 0) &&& 0xFF).setWidth 8]

def setDstAddr16 (f : HeyMacFrame) (dstAddr : BitVec 16) : HeyMacFrame :=
  let offset : Octet := BitVec.ofNat 8 frmIdxNetid
  let offset := if has f.fctl fctlBitN then offset + 2 else offset
  let f := f.putFrm offset.toNat (shortOctets dstAddr)
  let f := f.setFrm frmIdxFctl (f.fctl ||| fctlBitD)
  f.setFrm frmIdxFctl (f.fctl &&& ~~~fctlBitL)

def setDstAddr64 (f : HeyMacFrame) (dstAddr : BitVec 64) : HeyMacFrame :=
  let offset : Octet := BitVec.ofNat 8 frmIdxNetid
  let offset := if has f.fctl fctlBitN then offset + 2 else offset
  let f := f.putFrm offset.toNat (longOctets dstAddr)
  let f := f.setFrm frmIdxFctl (f.fctl ||| fctlBitD)
  f.setFrm frmIdxFctl (f.fctl ||| fctlBitL)

def setSrcAddr16 (f : HeyMacFrame) (srcAddr : BitVec 16) : HeyMacFrame :=
  let offset : Octet := BitVec.ofNat 8 frmIdxNetid
  let offset := if has f.fctl fctlBitN then offset + 2 else offset
  let offset := if has f.fctl fctlBitD then
    offset + (if has f.fctl fctlBitL then 8 else 2) else offset
  let offset := if has f.fctl fctlBitI then offset + getIeSz offset else offset
  let f := f.putFrm offset.toNat (shortOctets srcAddr)
  let f := f.setFrm frmIdxFctl (f.fctl ||| fctlBitS)
  f.setFrm frmIdxFctl (f.fctl &&& ~~~fctlBitL)

def setSrcAddr64 (f : HeyMacFrame) (srcAddr : BitVec 64) : HeyMacFrame :=
  let offset : Octet := BitVec.ofNat 8 frmIdxNetid
  let offset := if has f.fctl fctlBitN then offset + 2 else offset
  let offset := if has f.fctl fctlBitD then
    offset + (if has f.fctl fctlBitL then 8 else 2) else offset
  let offset := if has f.fctl fctlBitI then offset + getIeSz offset else offset
  let f := f.putFrm offset.toNat (longOctets srcAddr)
  let f := f.setFrm frmIdxFctl (f.fctl ||| fctlBitS)
  f.setFrm frmIdxFctl (f.fctl ||| fctlBitL)

/-- `set_payld(payld, sz)`; `payld` is the memory at the caller's pointer. -/
def setPayld (f : HeyMacFrame) (payld : Mem) (sz : Octet) : Bool × HeyMacFrame :=
  let offset : Octet := BitVec.ofNat 8 frmIdxNetid
  let offset := if has f.fctl fctlBitN then offset + 2 else offset
  let offset := if has f.fctl fctlBitD then
    offset + (if has f.fctl fctlBitL then 8 else 2) else offset
  let offset := if has f.fctl fctlBitI then offset + getIeSz offset else offset
  let offset := if has f.fctl fctlBitS then
    offset + (if has f.fctl fctlBitL then 8 else 2) else offset
  if offset.toNat + sz.toNat < hmFrameSz then
    let f := f.putFrm offset.toNat (get payld 0 sz.toNat)
    (true, { f with payldOffset := offset, payldSz := sz })
  else (false, f)

def setPayldSz (f : HeyMacFrame) (sz : Octet) : HeyMacFrame := { f with payldSz := sz }

/-- `set_mhop(hops, tx_addr)` for short addresses. -/
def setMhop16 (f : HeyMacFrame) (hops : Octet) (txAddr : BitVec 16) : Bool × HeyMacFrame :=
  if !has f.fctl fctlBitM && !has f.fctl fctlBitL then
    let mhopSz : Octet := if has f.fctl fctlBitL then 1 + 8 else 1 + 2
    if f.payldOffset.toNat + f.payldSz.toNat + f.micSz.toNat + mhopSz.toNat ≤ hmFrameSz then
      let offset : Octet :=
        BitVec.ofNat 8 (f.payldOffset.toNat + f.payldSz.toNat + f.micSz.toNat)
      let f := f.putFrm offset.toNat (hops :: shortOctets txAddr)
      (true, f.setFrm frmIdxFctl (f.fctl ||| fctlBitM))
    else (false, f)
  else (false, f)

/-- `set_mhop(hops, tx_addr)` for long addresses. -/
def setMhop64 (f : HeyMacFrame) (hops : Octet) (txAddr : BitVec 64) : Bool × HeyMacFrame :=
  if !has f.fctl fctlBitM && has f.fctl fctlBitL then
    let mhopSz : Octet := if has f.fctl fctlBitL then 1 + 8 else 1 + 2
    if f.payldOffset.toNat + f.payldSz.toNat + f.micSz.toNat + mhopSz.toNat ≤ hmFrameSz then
      let offset : Octet :=
        BitVec.ofNat 8 (f.payldOffset.toNat + f.payldSz.toNat + f.micSz.toNat)
      let f := f.putFrm offset.toNat (hops :: longOctets txAddr)
      (true, f.setFrm frmIdxFctl (f.fctl ||| fctlBitM))
    else (false, f)
  else (false, f)

/-- Only CSMA_V0 is supported; an extended frame's remaining contents are undefined
and those of any other frame are not checked yet. -/
def validateFields (f : HeyMacFrame) : Bool :=
  f.frm frmIdxPid == HmPidfld.csmaV0.code

/-- `parse()`, with the frame as it leaves it. -/
def parse (f : HeyMacFrame) : Bool × HeyMacFrame :=
  let offset : Octet := BitVec.ofNat 8 frmIdxNetid
  let offset := if has f.fctl fctlBitN then offset + 2 else offset
  let offset := if has f.fctl fctlBitD then
    offset + (if has f.fctl fctlBitL then 8 else 2) else offset
  let offset := if has f.fctl fctlBitI then offset + getIeSz offset else offset
  let f := if has f.fctl fctlBitI then { f with micSz := getMicSz offset } else f
  let offset := if has f.fctl fctlBitS then
    offset + (if has f.fctl fctlBitL then 8 else 2) else offset
  if offset < f.rxdSz then
    let mhopSz : Octet :=
      if has f.fctl fctlBitM then (if has f.fctl fctlBitL then 1 + 8 else 1 + 2) else 0
    let f := { f with payldOffset := offset }
    let payldSz : BitVec 16 := BitVec.ofInt 16
      ((f.rxdSz.toNat - mhopSz.toNat - f.micSz.toNat : Int) - f.payldOffset.toNat)
    if 0 < payldSz.toInt then
      let f := { f with payldSz := payldSz.setWidth 8 }
      (f.validateFields, f)
    else (false, f)
  else (false, f)

end HeyMacFrame
