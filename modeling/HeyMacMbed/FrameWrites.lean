import HeyMacMbed.Cmd
import HeyMacMbed.FramePool
import HeyMacMbed.FrameRoom

/-!
# Where the calls on a frame write

No order of calls is ruled out, nor any arguments, nor any state of the frame. A call
spares an octet if it does the same whatever that octet holds, and leaves it there. The
commands compare sizes as `set_mhop` does and start one octet later still, so two octets
behind the buffer are in their reach.
-/

open Bits Octets HeyMacFrame

/-- A public call that may change a frame, with its arguments. -/
inductive FrameCall where
  | set (c : FramePool.Setter)
  | payldSz (sz : Octet)
  | parse
  | cmdTxt (txt : Mem) (sz : Octet)
  | cmdCbcn (caps status : BitVec 16)

namespace FrameCall

def run (f : HeyMacFrame) : FrameCall → HeyMacFrame
  | .set c => c.apply f
  | .payldSz sz => f.setPayldSz sz
  | .parse => f.parse.2
  | .cmdTxt txt sz => (HeyMacCmd.cmdTxt f txt sz).2
  | .cmdCbcn caps status => (HeyMacCmd.cmdCbcn f caps status).2

/-- One call after the other. -/
def runs (f : HeyMacFrame) (calls : List FrameCall) : HeyMacFrame := calls.foldl run f

/-- Where in the buffer the call stores, and how many octets, FCTL apart. -/
def stores (f : HeyMacFrame) : FrameCall → Nat × Nat
  | .set (.protocol _) => (sFrameStart + frmIdxPid, 1)
  | .set (.netId _) => (sFrameStart + frmIdxNetid, 2)
  | .set (.dstAddr a) => (sFrameStart + dstPos f.fctl, a.octets.length)
  | .set (.srcAddr a) => (sFrameStart + srcPos f.fctl, a.octets.length)
  | .set (.payld p sz) =>
    (sFrameStart + payldPos f.fctl, if (f.setPayld p sz).1 then sz.toNat else 0)
  | .set (.mhop hops a) =>
    (sFrameStart + f.partsSz, if (f.setMhop hops a).1 then 1 + a.octets.length else 0)
  | .payldSz _ => (0, 0)
  | .parse => (0, 0)
  | .cmdTxt txt sz =>
    (getFrm + f.getFrmSz.toNat, if (HeyMacCmd.cmdTxt f txt sz).1 then 1 + sz.toNat else 0)
  | .cmdCbcn caps status =>
    (getFrm + f.getFrmSz.toNat, if (HeyMacCmd.cmdCbcn f caps status).1 then 1 + 4 else 0)

/-- The calls that pass the source's room test and still leave the buffer. -/
def Spills (f : HeyMacFrame) : FrameCall → Prop
  | .set (.mhop hops a) =>
    (f.setMhop hops a).1 = true ∧ f.partsSz + (1 + a.octets.length) = hmFrameSz
  | .cmdTxt txt sz =>
    (HeyMacCmd.cmdTxt f txt sz).1 = true ∧ hmFrameSz ≤ f.getFrmSz.toNat + 2 + sz.toNat
  | .cmdCbcn caps status =>
    (HeyMacCmd.cmdCbcn f caps status).1 = true ∧ hmFrameSz ≤ f.getFrmSz.toNat + 2 + 4
  | _ => False

/-- No call of a run does. -/
def Stay : HeyMacFrame → List FrameCall → Prop
  | _, [] => True
  | f, c :: calls => ¬ c.Spills f ∧ Stay (c.run f) calls

end FrameCall

namespace HeyMacFrame

/-- `parse` once its place for the payload and what it makes of the MIC are named. -/
theorem parse_named (f : HeyMacFrame) :
    f.parse =
      let g := if has f.fctl fctlBitI then { f with micSz := 0 } else f
      if payldOffsetOf f.fctl < f.rxdSz then
        let payldSz : BitVec 16 := BitVec.ofInt 16
          ((f.rxdSz.toNat - mhopLen f.fctl - g.micSz.toNat : Int) - (payldOffsetOf f.fctl).toNat)
        if 0 < payldSz.toInt then
          (f.validateFields, { g with
            payldOffset := payldOffsetOf f.fctl, payldSz := payldSz.setWidth 8 })
        else (false, { g with payldOffset := payldOffsetOf f.fctl })
      else (false, g) := by
  rw [← mhopSz_toNat]
  unfold parse
  by_cases hI : has f.fctl fctlBitI = true
  · simp only [hI, if_true, payldOffsetOf, srcOffset]
    rfl
  · simp only [hI, payldOffsetOf, srcOffset]
    rfl

section Poke
variable (f : HeyMacFrame) {k p : Nat} (bs : List Octet) (v : Octet)

theorem poke_putFrm (hk : k < sFrameStart + p ∨ sFrameStart + p + bs.length ≤ k) :
    (f.poke k v).putFrm p bs = (f.putFrm p bs).poke k v :=
  congrArg (fun m => { f with buf := m }) (put_update f.buf bs v hk)

theorem poke_putFrm_over (hlo : sFrameStart + p ≤ k) (hhi : k < sFrameStart + p + bs.length) :
    (f.poke k v).putFrm p bs = f.putFrm p bs :=
  congrArg (fun m => { f with buf := m }) (put_update_over f.buf bs v hlo hhi)

theorem poke_setFrm {i : Nat} (c : Octet) (hk : k ≠ sFrameStart + i) :
    (f.poke k v).setFrm i c = (f.setFrm i c).poke k v :=
  congrArg (fun m => { f with buf := m }) (Function.update_comm hk.symm c v f.buf).symm

theorem poke_store (c : Octet) (hc : k ≠ sFrameStart + frmIdxFctl)
    (hk : k < sFrameStart + p ∨ sFrameStart + p + bs.length ≤ k) :
    (f.poke k v).store p bs c = (f.store p bs c).poke k v := by
  rw [store, poke_putFrm f bs v hk, poke_setFrm _ v c hc]
  rfl

theorem poke_getFrmSz (hc : k ≠ sFrameStart + frmIdxFctl) :
    (f.poke k v).getFrmSz = f.getFrmSz := by
  simp only [HeyMacFrame.getFrmSz, poke_fctl f v hc]
  rfl

variable (hops : Octet) (a : Addr)

theorem poke_putMhop (hc : k ≠ sFrameStart + frmIdxFctl)
    (hk : k < sFrameStart + f.partsSz ∨ sFrameStart + f.partsSz + (1 + a.octets.length) ≤ k) :
    (f.poke k v).putMhop hops a = (f.putMhop hops a).poke k v := by
  have hlen : (hops :: a.octets).length = 1 + a.octets.length := Nat.add_comm _ _
  simp only [putMhop, poke_partsSz]
  rw [poke_putFrm f _ v (by rw [hlen]; exact hk), poke_fctl _ v hc, poke_setFrm _ v _ hc]

theorem poke_putMhop_over (hlo : sFrameStart + f.partsSz ≤ k)
    (hhi : k < sFrameStart + f.partsSz + (1 + a.octets.length)) :
    (f.poke k v).putMhop hops a = f.putMhop hops a := by
  have hlen : (hops :: a.octets).length = 1 + a.octets.length := Nat.add_comm _ _
  simp only [putMhop, poke_partsSz]
  rw [poke_putFrm_over f _ v hlo (by rw [hlen]; exact hhi)]

/-- `parse` reads PID and FCTL only, and stores no octet. -/
theorem poke_parse (hp : k ≠ sFrameStart + frmIdxPid) (hc : k ≠ sFrameStart + frmIdxFctl) :
    (f.poke k v).parse = (f.parse.1, f.parse.2.poke k v) := by
  have hpid : (f.poke k v).validateFields = f.validateFields := by
    have hsame : (f.poke k v).frm frmIdxPid = f.frm frmIdxPid :=
      Function.update_of_ne (Ne.symm hp) _ _
    rw [validateFields, validateFields, hsame]
  rw [parse_named, parse_named, hpid, poke_fctl f v hc]
  have hmic : (if has f.fctl fctlBitI then { f.poke k v with micSz := 0 } else f.poke k v) =
      (if has f.fctl fctlBitI then { f with micSz := 0 } else f).poke k v := by
    split <;> rfl
  simp only [hmic]
  generalize (if has f.fctl fctlBitI = true then _ else f : HeyMacFrame) = g
  have hsize : (f.poke k v).rxdSz = f.rxdSz := rfl
  have hgmic : (g.poke k v).micSz = g.micSz := rfl
  rw [hsize, hgmic]
  split
  · split
    · rfl
    · rfl
  · rfl

end Poke

end HeyMacFrame

namespace HeyMacCmd

variable (f : HeyMacFrame) {k : Nat} {offset : BitVec 16} (bs : List Octet) (v : Octet)

theorem poke_putCmd
    (hk : k < getFrm + offset.toNat ∨ getFrm + offset.toNat + bs.length ≤ k) :
    putCmd (f.poke k v) offset bs = (putCmd f offset bs).poke k v :=
  congrArg (fun m => { f with buf := m }) (put_update f.buf bs v hk)

theorem poke_putCmd_over (hlo : getFrm + offset.toNat ≤ k)
    (hhi : k < getFrm + offset.toNat + bs.length) :
    putCmd (f.poke k v) offset bs = putCmd f offset bs :=
  congrArg (fun m => { f with buf := m }) (put_update_over f.buf bs v hlo hhi)

end HeyMacCmd

namespace FrameCall

variable (f : HeyMacFrame) (c : FrameCall) {k : Nat} (v : Octet)

/-- A call spares the octets it does not store at, -/
theorem run_poke (hk : k = 0 ∨ hmFrameSz ≤ k)
    (hout : k < (c.stores f).1 ∨ (c.stores f).1 + (c.stores f).2 ≤ k) :
    c.run (f.poke k v) = (c.run f).poke k v := by
  have hp : k ≠ sFrameStart + frmIdxPid := by
    simp only [hmFrameSz, sFrameStart, frmIdxPid] at hk ⊢
    omega
  have hc : k ≠ sFrameStart + frmIdxFctl := by
    simp only [hmFrameSz, sFrameStart, frmIdxFctl] at hk ⊢
    omega
  cases c with
  | set c =>
    cases c with
    | protocol p => exact poke_setFrm f v p.code hp
    | netId n =>
      simp only [run, FramePool.Setter.apply, setNetId_eq, poke_fctl f v hc]
      exact poke_store f _ v _ hc (by rw [be_length]; exact hout)
    | dstAddr a =>
      simp only [run, FramePool.Setter.apply, setDstAddr_eq, poke_fctl f v hc]
      exact poke_store f _ v _ hc hout
    | srcAddr a =>
      simp only [run, FramePool.Setter.apply, setSrcAddr_eq, poke_fctl f v hc]
      exact poke_store f _ v _ hc hout
    | payld p sz =>
      simp only [stores, setPayld_eq] at hout
      simp only [run, FramePool.Setter.apply, setPayld_eq, poke_fctl f v hc]
      split
      · rename_i hroom
        rw [if_pos hroom] at hout
        have hput := poke_putFrm f (get p 0 sz.toNat) v (by rw [get_length]; exact hout)
        exact congrArg (fun g : HeyMacFrame =>
          { g with payldOffset := payldOffsetOf f.fctl, payldSz := sz }) hput
      · rfl
    | mhop hops a =>
      simp only [stores, setMhop_put] at hout
      simp only [run, FramePool.Setter.apply, setMhop_put, poke_fctl f v hc, poke_partsSz]
      split
      · rename_i hok
        rw [if_pos hok] at hout
        exact poke_putMhop f v hops a hc hout
      · rfl
  | payldSz sz => rfl
  | parse => exact congrArg Prod.snd (poke_parse f v hp hc)
  | cmdTxt txt sz =>
    simp only [stores, HeyMacCmd.cmdTxt] at hout
    simp only [run, HeyMacCmd.cmdTxt, poke_getFrmSz f v hc]
    split
    · rename_i hroom
      rw [if_pos hroom] at hout
      have hlen : ∀ o : Octet, (o :: get txt 0 sz.toNat).length = 1 + sz.toNat := fun o => by
        rw [List.length_cons, get_length, Nat.add_comm]
      exact congrArg (setPayldSz · (BitVec.ofNat 8 (1 + sz.toNat)))
        (HeyMacCmd.poke_putCmd f _ v (by rw [hlen]; exact hout))
    · rfl
  | cmdCbcn caps status =>
    simp only [stores, HeyMacCmd.cmdCbcn] at hout
    simp only [run, HeyMacCmd.cmdCbcn, poke_getFrmSz f v hc]
    split
    · rename_i hroom
      rw [if_pos hroom] at hout
      exact congrArg (setPayldSz · (BitVec.ofNat 8 (1 + 4))) (HeyMacCmd.poke_putCmd f _ v hout)
    · rfl

/-- and whatever it stores at behind the buffer, it stores over. -/
theorem run_poke_over (hk : hmFrameSz ≤ k) (hlo : (c.stores f).1 ≤ k)
    (hhi : k < (c.stores f).1 + (c.stores f).2) : c.run (f.poke k v) = c.run f := by
  have hc : k ≠ sFrameStart + frmIdxFctl := by
    simp only [hmFrameSz, sFrameStart, frmIdxFctl] at hk ⊢
    omega
  have hdst := dstPos_ge f.fctl
  have hsrc := srcPos_ge f.fctl
  have hpos := payldPos_ge f.fctl
  have hend := payldPos_le f.fctl
  have haddr : ∀ a : Addr, a.octets.length ≤ 8 := fun a => by
    rw [Addr.octets_length]
    split <;> omega
  cases c with
  | set c =>
    cases c with
    | protocol p =>
      simp only [stores, hmFrameSz, sFrameStart, frmIdxPid] at hk hhi
      omega
    | netId n =>
      simp only [stores, hmFrameSz, sFrameStart, frmIdxNetid] at hk hhi
      omega
    | dstAddr a =>
      have hlen := haddr a
      simp only [stores, hmFrameSz, sFrameStart] at hk hhi
      omega
    | srcAddr a =>
      have hlen := haddr a
      simp only [stores, hmFrameSz, sFrameStart] at hk hhi
      omega
    | payld p sz =>
      simp only [stores, setPayld_eq] at hhi
      split at hhi
      · simp only [hmFrameSz, sFrameStart, if_true] at *
        omega
      · simp only [hmFrameSz, sFrameStart, Bool.false_eq_true, if_false] at *
        omega
    | mhop hops a =>
      simp only [stores, setMhop_put] at hlo hhi
      simp only [run, FramePool.Setter.apply, setMhop_put, poke_fctl f v hc, poke_partsSz]
      by_cases hok : has f.fctl fctlBitM = false ∧ has f.fctl fctlBitL = a.isLong ∧
          f.partsSz + (1 + a.octets.length) ≤ hmFrameSz
      · rw [if_pos hok] at hhi
        rw [if_pos hok, if_pos hok]
        exact poke_putMhop_over f v hops a hlo hhi
      · rw [if_neg hok] at hhi
        exact absurd hhi (by simpa using hlo)
  | payldSz sz => cases hhi
  | parse => cases hhi
  | cmdTxt txt sz =>
    simp only [stores, HeyMacCmd.cmdTxt] at hlo hhi
    simp only [run, HeyMacCmd.cmdTxt, poke_getFrmSz f v hc]
    split
    · rename_i hroom
      rw [if_pos hroom] at hhi
      have hlen : ∀ o : Octet, (o :: get txt 0 sz.toNat).length = 1 + sz.toNat := fun o => by
        rw [List.length_cons, get_length, Nat.add_comm]
      exact congrArg (setPayldSz · (BitVec.ofNat 8 (1 + sz.toNat)))
        (HeyMacCmd.poke_putCmd_over f _ v hlo (by rw [hlen]; exact hhi))
    · rename_i hroom
      rw [if_neg hroom] at hhi
      exact absurd hhi (by simpa using hlo)
  | cmdCbcn caps status =>
    simp only [stores, HeyMacCmd.cmdCbcn] at hlo hhi
    simp only [run, HeyMacCmd.cmdCbcn, poke_getFrmSz f v hc]
    split
    · rename_i hroom
      rw [if_pos hroom] at hhi
      exact congrArg (setPayldSz · (BitVec.ofNat 8 (1 + 4)))
        (HeyMacCmd.poke_putCmd_over f _ v hlo hhi)
    · rename_i hroom
      rw [if_neg hroom] at hhi
      exact absurd hhi (by simpa using hlo)

/-- A call stores behind the octet for SPI, at most two octets behind the buffer, and
behind the buffer just if it spills. -/
theorem stores_bounds : (c.stores f).2 = 0 ∧ ¬ c.Spills f ∨
    (c.stores f).2 ≠ 0 ∧ sFrameStart ≤ (c.stores f).1 ∧
      (c.stores f).1 + (c.stores f).2 ≤ hmFrameSz + 2 ∧
      (c.Spills f ↔ hmFrameSz < (c.stores f).1 + (c.stores f).2) := by
  have hsrc := srcPos_ge f.fctl
  have hpos := payldPos_ge f.fctl
  have hend := payldPos_le f.fctl
  have haddr : ∀ a : Addr, 1 ≤ a.octets.length ∧ a.octets.length ≤ 8 := fun a => by
    rw [Addr.octets_length]
    split <;> omega
  cases c with
  | set c =>
    cases c with
    | protocol p => simp [stores, Spills, hmFrameSz, sFrameStart, frmIdxPid]
    | netId n => simp [stores, Spills, hmFrameSz, sFrameStart, frmIdxNetid]
    | dstAddr a =>
      have hlen := haddr a
      simp only [stores, Spills, hmFrameSz, sFrameStart, false_iff]
      omega
    | srcAddr a =>
      have hlen := haddr a
      simp only [stores, Spills, hmFrameSz, sFrameStart, false_iff]
      omega
    | payld p sz =>
      simp only [stores, Spills, setPayld_eq]
      split
      · simp only [hmFrameSz, sFrameStart, if_true, false_iff, not_false_eq_true, and_true] at *
        omega
      · exact Or.inl ⟨rfl, not_false⟩
    | mhop hops a =>
      simp only [stores, Spills, setMhop_put]
      split
      · simp only [hmFrameSz, sFrameStart, if_true, true_and] at *
        omega
      · exact Or.inl ⟨rfl, fun h => Bool.false_ne_true h.1⟩
  | payldSz sz => exact Or.inl ⟨rfl, not_false⟩
  | parse => exact Or.inl ⟨rfl, not_false⟩
  | cmdTxt txt sz =>
    simp only [stores, Spills, HeyMacCmd.cmdTxt]
    split
    · simp only [hmFrameSz, getFrm, sFrameStart, if_true, true_and] at *
      omega
    · exact Or.inl ⟨rfl, fun h => Bool.false_ne_true h.1⟩
  | cmdCbcn caps status =>
    simp only [stores, Spills, HeyMacCmd.cmdCbcn]
    split
    · simp only [hmFrameSz, getFrm, sFrameStart, if_true, true_and] at *
      omega
    · exact Or.inl ⟨rfl, fun h => Bool.false_ne_true h.1⟩

variable (calls : List FrameCall)

/-- The octet for SPI and all from the third behind the buffer on are out of reach. -/
theorem runs_poke_ends (hk : k = 0 ∨ hmFrameSz + 2 ≤ k) :
    runs (f.poke k v) calls = (runs f calls).poke k v := by
  induction calls generalizing f with
  | nil => rfl
  | cons c calls ih =>
    have hout : k < (c.stores f).1 ∨ (c.stores f).1 + (c.stores f).2 ≤ k := by
      rcases stores_bounds f c with ⟨hnone, _⟩ | ⟨_, hlo, hhi, _⟩
      · omega
      · simp only [sFrameStart] at hlo
        omega
    have hone := run_poke f c v (by omega) hout
    exact (congrArg (runs · calls) hone).trans (ih (c.run f))

theorem run_poke_of_not_spills {f : HeyMacFrame} {c : FrameCall} (h : ¬ c.Spills f)
    (hk : hmFrameSz ≤ k) (v : Octet) : c.run (f.poke k v) = (c.run f).poke k v := by
  refine run_poke f c v (Or.inr hk) ?_
  rcases stores_bounds f c with ⟨hnone, _⟩ | ⟨_, _, _, hiff⟩
  · omega
  · rw [hiff] at h
    omega

theorem Stay.runs_poke {f : HeyMacFrame} {calls : List FrameCall} (h : Stay f calls)
    (hk : hmFrameSz ≤ k) (v : Octet) : runs (f.poke k v) calls = (runs f calls).poke k v := by
  induction calls generalizing f with
  | nil => rfl
  | cons c calls ih =>
    exact (congrArg (runs · calls) (run_poke_of_not_spills h.1 hk v)).trans (ih h.2)

/-- What was stored over once is gone. -/
theorem runs_spill {f : HeyMacFrame} {calls : List FrameCall} (h : ¬ Stay f calls) :
    ∃ k, hmFrameSz ≤ k ∧ ∀ v, runs (f.poke k v) calls = runs f calls := by
  induction calls generalizing f with
  | nil => exact absurd trivial h
  | cons c calls ih =>
    by_cases hc : c.Spills f
    · rcases stores_bounds f c with ⟨_, hno⟩ | ⟨hcnt, _, _, hiff⟩
      · exact absurd hc hno
      · have hend := hiff.mp hc
        refine ⟨(c.stores f).1 + (c.stores f).2 - 1, by omega, fun v => ?_⟩
        exact congrArg (runs · calls) (run_poke_over f c v (by omega) (by omega) (by omega))
    · obtain ⟨k, hk, hover⟩ := ih fun hrest => h ⟨hc, hrest⟩
      exact ⟨k, hk, fun v =>
        (congrArg (runs · calls) (run_poke_of_not_spills hc hk v)).trans (hover v)⟩

/-- A text of 252 octets behind a frame of four ends two octets behind the buffer. -/
example : (cmdTxt (fun _ => 0x4B) 252).stores ⟨fun _ => 0, 2, 2, 0, 0⟩ = (6, 253) := by decide

end FrameCall
