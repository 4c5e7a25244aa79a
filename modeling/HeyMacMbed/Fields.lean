import HeyMacMbed.Bits
import Mathlib.Logic.Function.Basic

/-!
# Bit fields of a register file

A register file maps addresses to words; a field is a run of bits of one
register. Fields without a common bit do not see each other's read-modify-writes.
-/

namespace Fields

open Bits

universe u
variable {A : Type u} {w : Nat}

abbrev RegFile (A : Type u) (w : Nat) := A → BitVec w

structure BitField (A : Type u) where
  reg : A
  start : Nat
  cnt : Nat

namespace BitField

def read (f : BitField A) (m : RegFile A w) : BitVec f.cnt := (m f.reg).extractLsb' f.start f.cnt

/-- The two fields have no bit in common. -/
def Apart (f g : BitField A) : Prop :=
  f.reg = g.reg → f.start + f.cnt ≤ g.start ∨ g.start + g.cnt ≤ f.start

instance [DecidableEq A] (f g : BitField A) : Decidable (f.Apart g) :=
  inferInstanceAs (Decidable (_ → _))

variable [DecidableEq A]

/-- The read-modify-write of the field's register under a mask. -/
def write (f : BitField A) (m : RegFile A w) (mask v : BitVec w) : RegFile A w :=
  Function.update m f.reg (rmw (m f.reg) mask v f.start)

theorem read_update_other (f : BitField A) (m : RegFile A w) {a : A} (x : BitVec w)
    (h : f.reg ≠ a) : f.read (Function.update m a x) = f.read m := by
  rw [read, Function.update_of_ne h, read]

/-- A field is read back as written, cut to its width. -/
theorem read_write_same (f : BitField A) (m : RegFile A w) {mask v : BitVec w}
    (hm : IsMask mask f.start f.cnt) (hw : f.start + f.cnt ≤ w) :
    f.read (f.write m mask v) = v.extractLsb' 0 f.cnt := by
  rw [read, write, Function.update_self]
  exact extract_rmw_same hm hw

/-- A field apart from the one written keeps its value. -/
theorem read_write_apart {f g : BitField A} (m : RegFile A w) {mask v : BitVec w}
    (hm : f.reg = g.reg → IsMask mask f.start f.cnt) (hg : g.start + g.cnt ≤ w)
    (h : f.Apart g) : g.read (f.write m mask v) = g.read m := by
  by_cases hr : f.reg = g.reg
  · have hap := h hr
    rw [read, write, hr, Function.update_self, read]
    apply extract_rmw_other hg
    intro i hlo hhi
    rw [hm hr i (by omega), decide_eq_false_iff_not]
    omega
  · exact read_update_other g m _ fun e => hr e.symm

end BitField

end Fields
