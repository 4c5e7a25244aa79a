import HeyMacMbed.FrameParse
import HeyMacMbed.FrameRoundTrip
import HeyMacMbed.Runs

/-!
# Relaying a received frame

A received frame keeps the size it was received with, and `get_frm_sz` returns
it as long as it is not zero. The setters change the fields but not this size,
so what is sent on is the modified frame only if the fields happen to add up to
the old size again.
-/

open Bits Octets

namespace HeyMacFrame

/-- A call that modifies a received frame. -/
inductive Change where
  | payld (data : Mem) (sz : Octet)
  | mhop (hops : Octet) (a : Addr)

namespace Change

def call (f : HeyMacFrame) : Change → Bool × HeyMacFrame
  | .payld data sz => f.setPayld data sz
  | .mhop hops a => f.setMhop hops a

/-- The payload size the call leaves. -/
def payldSz (f : HeyMacFrame) : Change → Nat
  | .payld _ sz => sz.toNat
  | .mhop _ _ => f.payldSz.toNat

/-- Where the fields end after the call. -/
def newSz (f : HeyMacFrame) : Change → Nat
  | .payld _ sz => payldPos f.fctl + sz.toNat + mhopLen f.fctl
  | .mhop _ a => payldPos f.fctl + f.payldSz.toNat + (1 + a.octets.length)

/-- The fields the call sets are in the message. -/
def Shown (msg : Message) : Change → Prop
  | .payld data sz => msg.payld = get data 0 sz.toNat
  | .mhop hops a => msg.mhop = some (hops, a)

end Change

/-- A frame as `parse` leaves it when it accepts what was received. -/
def Received (f : HeyMacFrame) : Prop := ∃ buf sz, (ofBuf buf sz).parse = (true, f)

/-- A successful call. -/
def Changes (f : HeyMacFrame) (m : Change) (f' : HeyMacFrame) : Prop := m.call f = (true, f')

/-- The frames that received frames become by any number of successful calls. -/
def Relayed : HeyMacFrame → Prop := Runs.Reach Received Changes fun _ _ => True

/-- The size of the modified frame is that of its fields, and a receiver of that many
octets reads all that the frame now carries, with what the call set. -/
structure Follows (m : Change) (f : HeyMacFrame) : Prop where
  size : f.getFrmSz.toNat =
    f.payldOffset.toNat + f.payldSz.toNat + f.micSz.toNat + mhopLen f.fctl
  seen : ∀ r, IsReceived r f → r.parse.1 = true ∧
    readMessage r.parse.2.frm r.parse.2.payldSz.toNat = readMessage f.frm f.payldSz.toNat ∧
    m.Shown (readMessage r.parse.2.frm r.parse.2.payldSz.toNat)

/-- What stays as `parse` left it. -/
structure RelayInv (f : HeyMacFrame) : Prop where
  pid : f.frm frmIdxPid = HmPidfld.csmaV0.code
  offset : f.payldOffset = payldOffsetOf f.fctl
  micSz : f.micSz = 0
  rxdSz : f.rxdSz ≠ 0

theorem Received.inv {f : HeyMacFrame} (h : Received f) : RelayInv f := by
  obtain ⟨buf, sz, hparse⟩ := h
  have hacc : (ofBuf buf sz).parse.1 = true := congrArg Prod.fst hparse
  have hpos := pos_of_accepted buf sz hacc
  have hend := parse_accepted buf sz hacc
  rw [hparse] at hend
  have hf : f = _ := hend
  subst hf
  refine ⟨((parse_ofBuf buf sz hpos).mp hacc).1, rfl, rfl, ?_⟩
  intro hz
  have hz : sz = 0 := hz
  subst hz
  exact absurd hpos (by decide)

namespace RelayInv
variable {f f' : HeyMacFrame} {m : Change} (inv : RelayInv f)
include inv

theorem partsSz : f.partsSz = payldPos f.fctl + f.payldSz.toNat :=
  partsSz_of inv.offset inv.micSz

theorem getFrmSz : f.getFrmSz.toNat = f.rxdSz.toNat := by
  have hlt := f.rxdSz.isLt
  rw [HeyMacFrame.getFrmSz, if_pos inv.rxdSz, BitVec.toNat_setWidth]
  exact Nat.mod_eq_of_lt (by omega)

/-- One call: what it keeps, what the frame holds then, and that the size stays. -/
theorem step (hs : Changes f m f') : RelayInv f' ∧ f'.rxdSz = f.rxdSz ∧
    f'.payldSz.toNat = m.payldSz f ∧
    payldPos f'.fctl + f'.payldSz.toNat + mhopLen f'.fctl = m.newSz f ∧
    m.Shown (readMessage f'.frm f'.payldSz.toNat) := by
  have h2 := payldPos_two f.fctl
  cases m with
  | payld data sz =>
    have p := setPayld_true hs
    have hc : f'.frm frmIdxFctl = f.fctl := p.fctl
    refine ⟨⟨?_, ?_, ?_, ?_⟩, p.rxdSz, ?_, ?_, ?_⟩
    · rw [p.before (show frmIdxPid < _ by simp only [frmIdxPid]; omega), inv.pid]
    · rw [p.offset, p.fctl]
    · rw [p.micSz, inv.micSz]
    · rw [p.rxdSz]
      exact inv.rxdSz
    · rw [p.payldSz]
      rfl
    · rw [p.fctl, p.payldSz]
      rfl
    · simp only [Change.Shown, readMessage, hc, p.payldSz, p.payld]
  | mhop hops a =>
    have htwo := partsSz_two inv.offset
    have p := setMhop_true htwo hs
    have hlen := p.length
    have hpid : f'.frm frmIdxPid = f.frm frmIdxPid :=
      p.before (by decide) (show 0 < _ by omega)
    have hrx : f'.rxdSz = f.rxdSz := by rw [p.store, store_rxdSz]
    refine ⟨⟨?_, p.offset inv.offset, ?_, ?_⟩, hrx, ?_, ?_, ?_⟩
    · rw [hpid, inv.pid]
    · rw [p.store, store_micSz, inv.micSz]
    · rw [hrx]
      exact inv.rxdSz
    · rw [p.payldSz]
      rfl
    · rw [p.fctl, (sameFields_multihop f.fctl).payldPos, mhopLen_multihop, p.payldSz,
        Change.newSz, hlen]
    · rw [p.message inv.partsSz]
      rfl

end RelayInv

theorem Relayed.inv {f : HeyMacFrame} (h : Relayed f) : RelayInv f :=
  h.invariant (fun _ hf => hf.inv) fun _ _ _ inv _ hs => (inv.step hs).1

/-- After a successful `set_payld` or `set_mhop` on a received frame, whatever was called
before, the size follows the contents just if the payload is not empty and the fields end
where they did when the frame was received. -/
theorem relay_follows_iff (f : HeyMacFrame) (m : Change) (f' : HeyMacFrame) (hf : Relayed f)
    (hs : m.call f = (true, f')) :
    Follows m f' ↔ 1 ≤ m.payldSz f ∧ m.newSz f = f.rxdSz.toNat := by
  obtain ⟨inv', hrx, hpayld, hend, hshown⟩ := hf.inv.step hs
  have hsize := inv'.getFrmSz
  have hparts := inv'.partsSz
  simp only [HeyMacFrame.partsSz] at hparts
  rw [hrx] at hsize
  constructor
  · intro hok
    have heq : m.newSz f = f.rxdSz.toNat := by
      have hsz := hok.size
      omega
    refine ⟨?_, heq⟩
    -- a receiver that accepts the frame found a payload in it
    by_contra hzero
    obtain ⟨hacc, _⟩ := hok.seen (ofBuf f'.buf (f'.getFrmSz.setWidth 8)) ⟨f'.buf, rfl, fun _ _ => rfl⟩
    have hlt := ((parse_ofBuf _ _ (pos_of_accepted _ _ hacc)).mp hacc).2
    have hc : f'.buf (sFrameStart + frmIdxFctl) = f'.fctl := rfl
    rw [hc, BitVec.toNat_setWidth, hsize] at hlt
    omega
  · rintro ⟨hpos, heq⟩
    have hlen : f'.getFrmSz.toNat =
        payldPos f'.fctl + f'.payldSz.toNat + mhopLen f'.fctl := by omega
    constructor
    · omega
    · intro r hr
      have hlt := f.rxdSz.isLt
      have hall := received_of_size inv'.pid inv'.offset hlen (by omega) (by omega) hr
      refine ⟨hall.1, hall.2.2.2.2, ?_⟩
      rw [hall.2.2.2.2]
      exact hshown

/-- A received buffer: an empty header and three octets of payload. -/
def rxPlain : Mem := fun i => if i = 1 then 0xE4 else if i = 2 then 0 else 0x4B

theorem rxPlain_received : Received (ofBuf rxPlain 5).parse.2 :=
  ⟨rxPlain, 5, Prod.ext (by decide) rfl⟩

/-- The payload is replaced by one of the same size. -/
theorem relay_follows_same :
    let f := (ofBuf rxPlain 5).parse.2
    let m := Change.payld (fun _ => 7) 3
    Follows m (m.call f).2 ↔ 1 ≤ m.payldSz f ∧ m.newSz f = f.rxdSz.toNat := by
  intro f m
  exact relay_follows_iff f m (m.call f).2 (.start rxPlain_received)
    (Prod.ext (by decide) rfl)

/-- Hops and TxAddr are appended to the same frame: its fields end at 8, its size is
still 5, and what is sent on carries neither. -/
theorem relayed_mhop_cut :
    let f := (ofBuf rxPlain 5).parse.2
    let m := Change.mhop 5 (.short 9)
    Received f ∧ (m.call f).1 = true ∧ (m.call f).2.getFrmSz = 5 ∧
      (m.call f).2.partsSz + mhopLen (m.call f).2.fctl = 8 ∧ ¬ Follows m (m.call f).2 := by
  intro f m
  have hsz : (m.call f).2.getFrmSz = 5 := by decide +kernel
  have hend : (m.call f).2.partsSz + mhopLen (m.call f).2.fctl = 8 := by decide +kernel
  refine ⟨rxPlain_received, by decide +kernel, hsz, hend, ?_⟩
  intro hok
  have hsize := hok.size
  rw [hsz] at hsize
  have hsame : (5 : BitVec 16).toNat = 8 := hsize.trans hend
  exact absurd hsame (by decide)

end HeyMacFrame
