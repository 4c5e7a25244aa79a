import Mathlib.Data.BitVec
import Mathlib.Tactic.Common

/-!
# Flag tests and bit fields of machine words

A word is a bit vector of any width. `has` is the C test of a word against a
mask, `rmw` the read-modify-write of a bit field under a mask. Both are
characterised bit by bit, so no statement below depends on the width.
-/

namespace Bits

variable {w : Nat}

/-- The C condition `x & m`. -/
def has (x m : BitVec w) : Bool := x &&& m != 0#w

theorem has_iff_exists (x m : BitVec w) :
    has x m = true ↔ ∃ i, i < w ∧ x.getLsbD i = true ∧ m.getLsbD i = true := by
  constructor
  · intro h
    by_contra hn
    apply bne_iff_ne.mp h
    apply BitVec.eq_of_getLsbD_eq
    intro i hi
    have hbit : ¬ (x.getLsbD i = true ∧ m.getLsbD i = true) := fun hb => hn ⟨i, hi, hb⟩
    simpa using hbit
  · rintro ⟨i, _, hx, hm⟩
    apply bne_iff_ne.mpr
    intro h
    have hbit := congrArg (fun v : BitVec w => v.getLsbD i) h
    simp only [BitVec.getLsbD_and, hx, hm, BitVec.getLsbD_zero] at hbit
    cases hbit

@[simp] theorem has_zero (m : BitVec w) : has 0#w m = false := by
  simp [has]

@[simp] theorem has_or (x y m : BitVec w) : has (x ||| y) m = (has x m || has y m) := by
  rw [Bool.eq_iff_iff, Bool.or_eq_true]
  simp only [has_iff_exists, BitVec.getLsbD_or, Bool.or_eq_true]
  constructor
  · rintro ⟨i, hi, hx | hy, hm⟩
    · exact Or.inl ⟨i, hi, hx, hm⟩
    · exact Or.inr ⟨i, hi, hy, hm⟩
  · rintro (⟨i, hi, hx, hm⟩ | ⟨i, hi, hy, hm⟩)
    · exact ⟨i, hi, Or.inl hx, hm⟩
    · exact ⟨i, hi, Or.inr hy, hm⟩

/-- Cutting a word sets no bit. -/
theorem has_and_of_left {x m : BitVec w} (h : has x m = false) (y : BitVec w) :
    has (x &&& y) m = false := by
  by_contra hn
  obtain ⟨i, hi, hb, hm⟩ := (has_iff_exists _ _).mp (by simpa using hn)
  rw [BitVec.getLsbD_and, Bool.and_eq_true] at hb
  have hx := (has_iff_exists x m).mpr ⟨i, hi, hb.1, hm⟩
  rw [h] at hx
  cases hx

theorem has_and_of_right {y m : BitVec w} (h : has y m = false) (x : BitVec w) :
    has (x &&& y) m = false := by
  rw [BitVec.and_comm]
  exact has_and_of_left h x

theorem has_comm (x m : BitVec w) : has x m = has m x := by
  rw [has, has, BitVec.and_comm]

/-- A test against several bits at once. -/
theorem has_mask_or (x m n : BitVec w) : has x (m ||| n) = (has x m || has x n) := by
  rw [has_comm, has_or, has_comm m, has_comm n]

@[simp] theorem has_clear_same (x m : BitVec w) : has (x &&& ~~~m) m = false := by
  apply Bool.eq_false_iff.mpr
  rw [ne_eq, has_iff_exists]
  rintro ⟨i, hi, hx, hm⟩
  simp only [BitVec.getLsbD_and, BitVec.getLsbD_not, hm, hi, decide_true] at hx
  simp at hx

/-- Clearing a mask leaves every mask disjoint from it alone. -/
theorem has_clear_of_disjoint {x m n : BitVec w} (h : has n m = false) :
    has (x &&& ~~~n) m = has x m := by
  have apart : ∀ i, i < w → m.getLsbD i = true → n.getLsbD i = false := by
    intro i hi hm
    by_contra hn
    have hh := (has_iff_exists n m).mpr ⟨i, hi, by simpa using hn, hm⟩
    rw [h] at hh
    cases hh
  rw [Bool.eq_iff_iff, has_iff_exists, has_iff_exists]
  constructor
  · rintro ⟨i, hi, hx, hm⟩
    simp only [BitVec.getLsbD_and, Bool.and_eq_true] at hx
    exact ⟨i, hi, hx.1, hm⟩
  · rintro ⟨i, hi, hx, hm⟩
    have hn := apart i hi hm
    refine ⟨i, hi, ?_, hm⟩
    simp only [BitVec.getLsbD_and, BitVec.getLsbD_not, hx, hn, hi, decide_true]
    rfl

/-- The test against a single bit. -/
theorem has_bit (x : BitVec w) {i : Nat} (hi : i < w) : has x (1#w <<< i) = x.getLsbD i := by
  rw [Bool.eq_iff_iff, has_iff_exists]
  constructor
  · rintro ⟨j, hj, hx, hm⟩
    have hji : j = i := by
      by_contra hne
      simp only [BitVec.getLsbD_shiftLeft, BitVec.getLsbD_one] at hm
      simp at hm
      omega
    exact hji ▸ hx
  · intro hx
    refine ⟨i, hi, hx, ?_⟩
    simp only [BitVec.getLsbD_shiftLeft, BitVec.getLsbD_one, hi, Nat.sub_self]
    simp
    omega

/-- `m` is the mask of the `cnt` bits from `start` on. -/
def IsMask (m : BitVec w) (start cnt : Nat) : Prop :=
  ∀ i, i < w → m.getLsbD i = decide (start ≤ i ∧ i < start + cnt)

instance (m : BitVec w) (start cnt : Nat) : Decidable (IsMask m start cnt) :=
  inferInstanceAs (Decidable (∀ i, i < w → _))

/-- The read-modify-write of `v`, shifted to `start`, under the mask `m`. -/
def rmw (r m v : BitVec w) (start : Nat) : BitVec w :=
  (r &&& ~~~m) ||| (m &&& (v <<< start))

theorem getLsbD_rmw (r m v : BitVec w) (start i : Nat) (hi : i < w) :
    (rmw r m v start).getLsbD i =
      if m.getLsbD i then (v <<< start).getLsbD i else r.getLsbD i := by
  simp only [rmw, BitVec.getLsbD_or, BitVec.getLsbD_and, BitVec.getLsbD_not, hi, decide_true,
    Bool.true_and]
  cases m.getLsbD i <;> simp

/-- The field written is read back, cut to the field's width. -/
theorem extract_rmw_same {r m v : BitVec w} {start cnt : Nat} (hm : IsMask m start cnt)
    (hw : start + cnt ≤ w) :
    (rmw r m v start).extractLsb' start cnt = v.extractLsb' 0 cnt := by
  apply BitVec.eq_of_getLsbD_eq
  intro i hi
  have hiw : start + i < w := by omega
  have hmask : m.getLsbD (start + i) = true := by
    rw [hm _ hiw, decide_eq_true_eq]
    omega
  have hsub : start + i - start = i := by omega
  simp only [BitVec.getLsbD_extractLsb', getLsbD_rmw _ _ _ _ _ hiw, hmask, if_true,
    BitVec.getLsbD_shiftLeft, hiw, hsub, Nat.zero_add, show ¬ start + i < start by omega]
  simp

/-- A field none of whose bits is in the mask keeps its value. -/
theorem extract_rmw_other {r m v : BitVec w} {start s c : Nat} (hw : s + c ≤ w)
    (hm : ∀ i, s ≤ i → i < s + c → m.getLsbD i = false) :
    (rmw r m v start).extractLsb' s c = r.extractLsb' s c := by
  apply BitVec.eq_of_getLsbD_eq
  intro i hi
  simp only [BitVec.getLsbD_extractLsb', getLsbD_rmw _ _ _ _ _ (show s + i < w by omega),
    hm (s + i) (by omega) (by omega)]
  simp

/-- A word below `2 ^ cnt` loses nothing in a field of `cnt` bits. -/
theorem toNat_extract_of_lt {v : BitVec w} {cnt : Nat} (hv : v.toNat < 2 ^ cnt) :
    (v.extractLsb' 0 cnt).toNat = v.toNat := by
  simp [BitVec.extractLsb'_toNat, Nat.mod_eq_of_lt hv]

end Bits
