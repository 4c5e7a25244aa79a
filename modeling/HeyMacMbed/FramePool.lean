import HeyMacMbed.FrameLayout
import HeyMacMbed.Runs

/-!
# The buffers of the frame pool

The pool's element type is `uint8_t` and its count `HM_FRAME_SZ *
HM_FRMBUF_POOL_CNT`, while a frame takes the address it is given for the start
of `HM_FRAME_SZ` octets. A block is the size of one element, rounded up to a
word or not; nothing below depends on which.
-/

open Bits Octets

def hmFrmbufPoolCnt : Nat := 4

namespace FramePool

/-- `s_frmbuf_pool`'s number of blocks. -/
def poolCnt : Nat := hmFrameSz * hmFrmbufPoolCnt

/-- A live frame, by the block its buffer starts at. -/
abbrev Live := List Nat

inductive Op where
  | construct (block : Nat)
  | destroy (block : Nat)
  deriving DecidableEq

/-- `HeyMacFrame()` gets a block not currently allocated, `~HeyMacFrame()` frees its own. -/
inductive Step : Live → Op → Live → Prop where
  | construct {live : Live} {i : Nat} : i < poolCnt → i ∉ live →
      Step live (.construct i) (i :: live)
  | destroy {live : Live} {i : Nat} : i ∈ live → Step live (.destroy i) (live.erase i)

/-- A setter call, with its arguments. -/
inductive Setter where
  | protocol (pidfld : HmPidfld)
  | netId (n : BitVec 16)
  | dstAddr (a : Addr)
  | srcAddr (a : Addr)
  | payld (p : Mem) (sz : Octet)
  | mhop (hops : Octet) (a : Addr)

def Setter.apply (f : HeyMacFrame) : Setter → HeyMacFrame
  | .protocol p => f.setProtocol p
  | .netId n => f.setNetId n
  | .dstAddr a => f.setDstAddr a
  | .srcAddr a => f.setSrcAddr a
  | .payld p sz => (f.setPayld p sz).2
  | .mhop hops a => (f.setMhop hops a).2

/-- The frame whose buffer starts at address `b` of a memory, with the sizes of `f`. -/
def frameAt (mem : Mem) (b : Nat) (f : HeyMacFrame) : HeyMacFrame :=
  { f with buf := fun k => mem (b + k) }

/-- The memory after a setter call on the frame at `b`. -/
def callAt (mem : Mem) (b : Nat) (f : HeyMacFrame) (c : Setter) : Mem := fun a =>
  if b ≤ a then (c.apply (frameAt mem b f)).buf (a - b) else mem a

variable (blk : Nat)

/-- The buffers of the live frames lie in the pool, are apart from each other, and no
setter call on one changes an octet of another, in whatever state the frame is. -/
structure Safe (live : Live) : Prop where
  inside : ∀ i ∈ live, i * blk + hmFrameSz ≤ poolCnt * blk
  apart : ∀ i ∈ live, ∀ j ∈ live, i ≠ j →
    i * blk + hmFrameSz ≤ j * blk ∨ j * blk + hmFrameSz ≤ i * blk
  setters : ∀ i ∈ live, ∀ j ∈ live, i ≠ j → ∀ mem f c k, k < hmFrameSz →
    callAt mem (i * blk) f c (j * blk + k) = mem (j * blk + k)

/-- A construction's block starts `HM_FRAME_SZ` octets before the storage's end and
more than `HM_FRAME_SZ` octets from the block of every live frame. -/
def WellPlaced (live : Live) : Op → Prop
  | .construct i => i * blk + hmFrameSz ≤ poolCnt * blk ∧
      ∀ j ∈ live, i * blk + hmFrameSz < j * blk ∨ j * blk + hmFrameSz < i * blk
  | .destroy _ => True

/-- A setter writes the buffer's octets 1 to 257 only, whatever the frame's state:
octet 257, one past the buffer, is the last `set_mhop` may reach. -/
theorem apply_outside (f : HeyMacFrame) (c : Setter) {k : Nat} (hk : k = 0 ∨ 258 ≤ k) :
    (c.apply f).buf k = f.buf k := by
  have hds := HeyMacFrame.srcPos_ge f.fctl
  have hsp := HeyMacFrame.payldPos_ge f.fctl
  have hpos := HeyMacFrame.payldPos_le f.fctl
  have hlen : ∀ a : Addr, a.octets.length ≤ 8 := fun a => by
    rw [Addr.octets_length]
    split <;> omega
  have hstore : ∀ (p : Nat) (bs : List Octet) (c : Octet), p + bs.length ≤ 257 →
      (f.store p bs c).buf k = f.buf k := fun p bs c hp =>
    HeyMacFrame.store_buf f bs c
      (by simp only [HeyMacFrame.sFrameStart, HeyMacFrame.frmIdxFctl]; omega)
      (by simp only [HeyMacFrame.sFrameStart]; omega)
  cases c with
  | protocol p =>
    exact Function.update_of_ne
      (by simp only [HeyMacFrame.sFrameStart, HeyMacFrame.frmIdxPid]; omega) _ _
  | netId n =>
    rw [Setter.apply, HeyMacFrame.setNetId_eq]
    exact hstore _ _ _ (by simp [HeyMacFrame.frmIdxNetid])
  | dstAddr a =>
    rw [Setter.apply, HeyMacFrame.setDstAddr_eq]
    exact hstore _ _ _ (by have := hlen a; omega)
  | srcAddr a =>
    rw [Setter.apply, HeyMacFrame.setSrcAddr_eq]
    exact hstore _ _ _ (by have := hlen a; omega)
  | payld p sz =>
    rw [Setter.apply, HeyMacFrame.setPayld_eq]
    split
    · rename_i hroom
      simp only [hmFrameSz] at hroom
      exact put_outside _ _ _ _ (by
        simp only [HeyMacFrame.sFrameStart, get_length]
        omega)
    · rfl
  | mhop hops a =>
    rw [Setter.apply, HeyMacFrame.setMhop_put]
    split
    · rename_i hroom
      -- wherever the sizes of the frame put the fields, the source's bound holds of them
      have hend := hroom.2.2
      simp only [hmFrameSz] at hend
      exact hstore _ (hops :: a.octets) _ (by rw [List.length_cons]; omega)
    · rfl

/-- A setter call on the frame at `b` leaves alone what lies before it and what lies
more than `HM_FRAME_SZ` octets behind its start. -/
theorem callAt_outside (mem : Mem) (b : Nat) (f : HeyMacFrame) (c : Setter) {a : Nat}
    (h : a < b ∨ b + hmFrameSz < a) : callAt mem b f c a = mem a := by
  simp only [hmFrameSz] at h
  unfold callAt
  split
  · rename_i hle
    rw [apply_outside _ _ (Or.inr (by omega))]
    have ha : b + (a - b) = a := by omega
    exact congrArg mem ha
  · rfl

/-- `set_mhop` on a short frame with 252 octets of payload stores the address's last
octet one past the frame's buffer. -/
theorem mhop_reaches_neighbour (b : Nat) : ∃ mem f c,
    callAt mem b f c (b + hmFrameSz) ≠ mem (b + hmFrameSz) := by
  refine ⟨fun _ => 0, ⟨fun _ => 0, 2, 252, 0, 0⟩, .mhop 0 (.short 1), ?_⟩
  have hsub : b + hmFrameSz - b = 257 := by simp [hmFrameSz]
  have hf : frameAt (fun _ => 0) b ⟨fun _ => 0, 2, 252, 0, 0⟩ = ⟨fun _ => 0, 2, 252, 0, 0⟩ := rfl
  simp only [callAt, Nat.le_add_right, if_true, hsub, hf]
  decide

theorem safe_nil : Safe blk [] where
  inside := by simp
  apart := by simp
  setters := by simp

/-- Destroying a frame only takes buffers away. -/
theorem safe_erase {live : Live} {i : Nat} (h : Safe blk live) : Safe blk (live.erase i) where
  inside := fun j hj => h.inside j (List.mem_of_mem_erase hj)
  apart := fun j hj k hk => h.apart j (List.mem_of_mem_erase hj) k (List.mem_of_mem_erase hk)
  setters := fun j hj k hk =>
    h.setters j (List.mem_of_mem_erase hj) k (List.mem_of_mem_erase hk)

/-- What must hold of a construction for the buffers to stay apart. -/
theorem wellPlaced_of_safe {live : Live} {i : Nat} (hi : i ∉ live)
    (h : Safe blk (i :: live)) : WellPlaced blk live (.construct i) := by
  refine ⟨h.inside i List.mem_cons_self, fun j hj => ?_⟩
  have hne : i ≠ j := fun e => hi (e ▸ hj)
  have hj' : j ∈ i :: live := List.mem_cons_of_mem _ hj
  have hi' : i ∈ i :: live := List.mem_cons_self
  -- at a distance of exactly `HM_FRAME_SZ` the ranges are disjoint, but `set_mhop` is not confined
  rcases h.apart i hi' j hj' hne with hlt | hlt
  · rcases Nat.lt_or_eq_of_le hlt with hlt | heq
    · exact Or.inl hlt
    · obtain ⟨mem, f, c, hch⟩ := mhop_reaches_neighbour (i * blk)
      rw [heq] at hch
      exact absurd (h.setters i hi' j hj' hne mem f c 0 (by decide)) hch
  · rcases Nat.lt_or_eq_of_le hlt with hlt | heq
    · exact Or.inr hlt
    · obtain ⟨mem, f, c, hch⟩ := mhop_reaches_neighbour (j * blk)
      rw [heq] at hch
      exact absurd (h.setters j hj' i hi' (Ne.symm hne) mem f c 0 (by decide)) hch

theorem safe_of_wellPlaced {live : Live} {i : Nat} (hs : Safe blk live)
    (h : WellPlaced blk live (.construct i)) : Safe blk (i :: live) := by
  obtain ⟨hin, hap⟩ := h
  refine ⟨?_, ?_, ?_⟩
  · intro j hj
    rcases List.mem_cons.mp hj with rfl | hj
    · exact hin
    · exact hs.inside j hj
  · intro j hj k hk hne
    rcases List.mem_cons.mp hj with rfl | hj' <;> rcases List.mem_cons.mp hk with rfl | hk'
    · exact absurd rfl hne
    · have := hap k hk'
      omega
    · have := hap j hj'
      omega
    · exact hs.apart j hj' k hk' hne
  · intro j hj k hk hne mem f c o ho
    rcases List.mem_cons.mp hj with rfl | hj' <;> rcases List.mem_cons.mp hk with rfl | hk'
    · exact absurd rfl hne
    · have := hap k hk'
      exact callAt_outside mem _ f c (by omega)
    · have := hap j hj'
      exact callAt_outside mem _ f c (by omega)
    · exact hs.setters j hj' k hk' hne mem f c o ho

/-- One construction or destruction. -/
theorem step_safe_iff (live : Live) (op : Op) (live' : Live) (hs : Safe blk live)
    (h : Step live op live') : Safe blk live' ↔ WellPlaced blk live op := by
  cases h with
  | construct hlt hi => exact ⟨wellPlaced_of_safe blk hi, safe_of_wellPlaced blk hs⟩
  | destroy hi => exact ⟨fun _ => trivial, fun _ => safe_erase blk hs⟩

/-- The frames of a run never share buffer octets just if each of its constructions
is well placed among the frames live then. -/
theorem live_frames_apart_iff {p : List (Op × Live)} (h : Runs.Path Step [] p) :
    (∀ x ∈ p, Safe blk x.2) ↔ Runs.Guarded (WellPlaced blk) [] p :=
  h.safe_iff (step_safe_iff blk) (safe_nil blk)

/-- Two frames 65 words apart, of which the first is destroyed again. -/
theorem live_frames_apart_two :
    let p : List (Op × Live) := [(.construct 0, [0]), (.construct 65, [65, 0]), (.destroy 0, [65])]
    (∀ x ∈ p, Safe 4 x.2) ↔ Runs.Guarded (WellPlaced 4) [] p :=
  live_frames_apart_iff 4
    (.cons (.construct (by decide) (by decide)) (.cons (.construct (by decide) (by decide))
      (.cons (.destroy (by decide)) (.nil _))))

/-- Two frames constructed one after the other get the pool's blocks 0 and 1, which are
one octet apart, or four if blocks are rounded up to a word: their buffers overlap and
the protocol of the second is stored into the first. -/
theorem frames_share_octets :
    Runs.Path Step [] [(.construct 0, [0]), (.construct 1, [1, 0])] ∧
      ∀ blk ∈ [1, 4], ¬ Safe blk [1, 0] ∧
        callAt (fun _ => 0) (1 * blk) (HeyMacFrame.new fun _ => 0) (.protocol .csmaV0)
          (0 * blk + (blk + 1)) = 0xE4 := by
  refine ⟨.cons (.construct (by decide) (by decide))
    (.cons (.construct (by decide) (by decide)) (.nil _)), fun blk hblk => ⟨fun h => ?_, ?_⟩⟩
  · have hap := h.apart 1 (by decide) 0 (by decide) (by decide)
    simp only [hmFrameSz] at hap
    rcases List.mem_cons.mp hblk with rfl | hblk
    · omega
    · have := List.mem_singleton.mp hblk
      omega
  · rcases List.mem_cons.mp hblk with rfl | hblk
    · decide
    · rcases List.mem_singleton.mp hblk with rfl
      decide

end FramePool
