import HeyMacMbed.FrameSizes

/-!
# The room for Hops and TxAddr

`set_mhop` compares the end of the frame with the size of the buffer, but the
frame starts one octet into it. The bound is met exactly, and the last octet of
TxAddr falls behind the buffer, when the frame with its new fields has
`HM_FRAME_SZ` octets; in every other case the call does what its comment says.
-/

open Bits Octets

namespace HeyMacFrame

/-- The frame after an octet of its buffer, or of what follows it, was changed. -/
def poke (f : HeyMacFrame) (k : Nat) (v : Octet) : HeyMacFrame :=
  { f with buf := Function.update f.buf k v }

/-- A frame with room is extended inside its buffer and otherwise kept, any other is
left as it was. A call stores nothing at `k` if it never changes what `k` held. -/
structure MhopOk (f : HeyMacFrame) (hops : Octet) (a : Addr) : Prop where
  result : (f.setMhop hops a).1 = true ↔ has f.fctl fctlBitM = false ∧
    has f.fctl fctlBitL = a.isLong ∧ f.getBufSz.toNat + (1 + a.octets.length) ≤ hmFrameSz
  inside : (f.setMhop hops a).1 = true → ∀ k v, hmFrameSz ≤ k →
    ((f.poke k v).setMhop hops a).2.buf k = v
  bufSz : (f.setMhop hops a).1 = true → (f.setMhop hops a).2.getBufSz.toNat ≤ hmFrameSz
  grows : (f.setMhop hops a).1 = true →
    (f.setMhop hops a).2.getFrmSz.toNat = f.getFrmSz.toNat + (1 + a.octets.length)
  kept : (f.setMhop hops a).1 = true → (f.setMhop hops a).2.fctl = f.fctl ||| fctlBitM ∧
    ∀ k, k < f.getBufSz.toNat → k ≠ sFrameStart + frmIdxFctl →
      (f.setMhop hops a).2.buf k = f.buf k
  refused : (f.setMhop hops a).1 = false → (f.setMhop hops a).2 = f

section Poke
variable (f : HeyMacFrame) {k : Nat} (v : Octet)

theorem poke_fctl (hk : k ≠ sFrameStart + frmIdxFctl) : (f.poke k v).fctl = f.fctl :=
  Function.update_of_ne (Ne.symm hk) _ _

@[simp] theorem poke_partsSz : (f.poke k v).partsSz = f.partsSz := rfl

@[simp] theorem poke_buf : (f.poke k v).buf k = v := Function.update_self _ _ _

end Poke

variable {f : HeyMacFrame} {hops : Octet} {a : Addr}

/-- The call's own condition, on a frame that is not multihop. -/
theorem Sized.setMhop_iff (s : Sized f) (hops : Octet) (a : Addr)
    (hM : has f.fctl fctlBitM = false) :
    (f.setMhop hops a).1 = true ↔
      has f.fctl fctlBitL = a.isLong ∧ f.getFrmSz.toNat + (1 + a.octets.length) ≤ hmFrameSz := by
  have hend : f.getFrmSz.toNat = f.partsSz := by
    rw [s.getFrmSz, s.partsSz, mhopLen, hM]
    rfl
  rw [setMhop_eq f hops a (partsSz_two s.offset), hend]
  constructor
  · intro h
    split at h
    · rename_i hok
      exact hok.2
    · cases h
  · intro h
    rw [if_pos ⟨hM, h⟩]

/-- A call that finds no room, or the other width, changes nothing. -/
theorem setMhop_refused (hp : 2 ≤ f.partsSz) (h : (f.setMhop hops a).1 = false) :
    (f.setMhop hops a).2 = f := by
  rw [setMhop_eq f hops a hp] at h ⊢
  split at h
  · cases h
  · rename_i hno
    rw [if_neg hno]

/-- The frame ends inside its buffer: `set_mhop` does what it should. -/
theorem Sized.mhopOk (s : Sized f) (hM : has f.fctl fctlBitM = false)
    (hend : has f.fctl fctlBitL = a.isLong →
      f.getFrmSz.toNat + (1 + a.octets.length) ≠ hmFrameSz) : MhopOk f hops a := by
  have hbuf := s.getBufSz
  have hsize : f.getFrmSz.toNat = f.partsSz := by
    rw [s.getFrmSz, s.partsSz, mhopLen, hM]
    rfl
  have hiff := s.setMhop_iff hops a hM
  have hset : (f.setMhop hops a).1 = true → MhopSet f hops a (f.setMhop hops a).2 :=
    fun h => setMhop_true (partsSz_two s.offset) (Prod.ext h rfl)
  have hroom : (f.setMhop hops a).1 = true →
      f.getFrmSz.toNat + (1 + a.octets.length) < hmFrameSz := by
    intro h
    have hok := hiff.mp h
    have hne := hend hok.1
    omega
  constructor
  · constructor
    · intro h
      have hok := hiff.mp h
      have hlt := hroom h
      exact ⟨hM, hok.1, by simp only [sFrameStart] at hbuf; omega⟩
    · rintro ⟨_, hL, hfit⟩
      exact hiff.mpr ⟨hL, by omega⟩
  · intro h k v hk
    have hlt := hroom h
    simp only [hmFrameSz] at hk hlt
    have hne : k ≠ sFrameStart + frmIdxFctl := by simp only [sFrameStart, frmIdxFctl]; omega
    have p := hset h
    have htwo : 2 ≤ f.partsSz := partsSz_two s.offset
    have hp : 2 ≤ (f.poke k v).partsSz := htwo
    rw [setMhop_eq _ _ _ hp, poke_fctl f v hne, poke_partsSz, if_pos ⟨hM, p.width, p.room⟩,
      store_buf _ _ _ hne (Or.inr (by simp only [sFrameStart, List.length_cons]; omega)), poke_buf]
  · intro h
    have hlt := hroom h
    have hgrow := s.setMhop_getFrmSz (hset h)
    have hbuf' := (s.setMhop (hset h)).getBufSz
    simp only [sFrameStart] at hbuf'
    omega
  · intro h
    exact s.setMhop_getFrmSz (hset h)
  · intro h
    refine ⟨(hset h).fctl, fun k hk hc => ?_⟩
    rw [(hset h).store, store_buf f _ _ hc (Or.inl (by omega))]
  · intro h
    exact setMhop_refused (partsSz_two s.offset) h

/-- The frame would end one octet behind its buffer: `set_mhop` agrees all the same. -/
theorem Sized.not_mhopOk (s : Sized f) (hM : has f.fctl fctlBitM = false)
    (hL : has f.fctl fctlBitL = a.isLong)
    (hend : f.getFrmSz.toNat + (1 + a.octets.length) = hmFrameSz) : ¬ MhopOk f hops a := by
  intro hok
  have hbuf := s.getBufSz
  have htrue := (s.setMhop_iff hops a hM).mpr ⟨hL, Nat.le_of_eq hend⟩
  obtain ⟨_, _, hfit⟩ := hok.result.mp htrue
  simp only [sFrameStart] at hbuf
  omega

/-- `set_mhop` on a frame built up to its payload keeps to the buffer and to what it
adds just if the width is not the frame's or the frame does not become `HM_FRAME_SZ`
octets long. -/
theorem setMhop_ok_iff (buf : Mem) (pidfld : HmPidfld) (h : Header) (payld : Mem) (sz : Octet)
    (f : HeyMacFrame) (hb : (startHeader buf pidfld h).setPayld payld sz = (true, f))
    (hops : Octet) (a : Addr) :
    MhopOk f hops a ↔
      ¬ (h.isLong = a.isLong ∧ h.len + sz.toNat + (1 + a.octets.length) = hmFrameSz) := by
  have loaded := (startHeader_opened buf pidfld h).setPayld hb
  have hM := loaded.flags.multihop
  rw [← loaded.getFrmSz, ← loaded.flags.long]
  constructor
  · rintro hok ⟨hL, heq⟩
    exact loaded.sized.not_mhopOk hM hL heq hok
  · intro hnot
    exact loaded.sized.mhopOk hM fun hL heq => hnot ⟨hL, heq⟩

/-- Three octets of payload leave room. -/
theorem setMhop_ok_three :
    let f := ((startHeader (fun _ => 0) .csmaV0 ⟨none, none, none⟩).setPayld (fun _ => 7) 3).2
    MhopOk f 5 (.short 1) ↔ ¬ (false = false ∧ 2 + 3 + (1 + 2) = hmFrameSz) := by
  intro f
  exact setMhop_ok_iff (fun _ => 0) .csmaV0 ⟨none, none, none⟩ (fun _ => 7) 3 f rfl 5 (.short 1)

/-- 252 octets of payload behind an empty header: the frame becomes 257 octets long and
the last octet of TxAddr is stored behind the 257 octets of the buffer. -/
theorem setMhop_leaves_buffer :
    let f := ((startHeader (fun _ => 0) .csmaV0 ⟨none, none, none⟩).setPayld (fun _ => 7) 252).2
    (f.setMhop 5 (.short 1)).1 = true ∧ (f.setMhop 5 (.short 1)).2.buf hmFrameSz = 1 ∧
      f.buf hmFrameSz = 0 ∧ ¬ MhopOk f 5 (.short 1) := by
  intro f
  have hset : (startHeader (fun _ => 0) .csmaV0 ⟨none, none, none⟩).setPayld (fun _ => 7) 252 =
      (true, f) := rfl
  have loaded := (startHeader_opened _ _ _).setPayld hset
  refine ⟨by decide +kernel, by decide +kernel, by decide +kernel, ?_⟩
  exact loaded.sized.not_mhopOk loaded.flags.multihop loaded.flags.long
    (congrArg (· + 3) loaded.getFrmSz)

end HeyMacFrame
