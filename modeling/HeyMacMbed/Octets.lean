import Mathlib.Data.BitVec
import Mathlib.Tactic.Common
import Mathlib.Tactic.Ring

/-!
# Octet memories

A memory maps every address to an octet, so a store past the end of an object
is visible instead of impossible. `put` makes the stores of a run of octets one
by one, `get` reads a run, `be` and `ofBe` convert words MSB first.
-/

namespace Octets

abbrev Octet := BitVec 8

abbrev Mem := Nat → Octet

/-- Stores `bs` at `off`, lowest address first. -/
def put : Mem → Nat → List Octet → Mem
  | m, _, [] => m
  | m, off, b :: bs => put (Function.update m off b) (off + 1) bs

/-- The `n` octets from `off` on. -/
def get (m : Mem) : Nat → Nat → List Octet
  | _, 0 => []
  | off, n + 1 => m off :: get m (off + 1) n

theorem put_outside (m : Mem) (off : Nat) (bs : List Octet) (i : Nat)
    (h : i < off ∨ off + bs.length ≤ i) : put m off bs i = m i := by
  induction bs generalizing m off with
  | nil => rfl
  | cons b bs ih =>
    simp only [List.length_cons] at h
    rw [put, ih _ _ (by omega)]
    exact Function.update_of_ne (by omega) _ _

/-- A store next to an octet keeps it, -/
theorem put_update (m : Mem) {off k : Nat} (bs : List Octet) (v : Octet)
    (hk : k < off ∨ off + bs.length ≤ k) :
    put (Function.update m k v) off bs = Function.update (put m off bs) k v := by
  induction bs generalizing m off with
  | nil => rfl
  | cons b bs ih =>
    rw [List.length_cons] at hk
    rw [put, put, Function.update_comm (by omega), ih _ (by omega)]

/-- and a store over it forgets it. -/
theorem put_update_over (m : Mem) {off k : Nat} (bs : List Octet) (v : Octet)
    (hlo : off ≤ k) (hhi : k < off + bs.length) :
    put (Function.update m k v) off bs = put m off bs := by
  induction bs generalizing m off with
  | nil => exact absurd hhi (by simpa using hlo)
  | cons b bs ih =>
    rw [List.length_cons] at hhi
    rw [put, put]
    by_cases hk : k = off
    · rw [hk, Function.update_idem]
    · rw [Function.update_comm hk, ih _ (by omega) (by omega)]

@[simp] theorem get_length (m : Mem) (off n : Nat) : (get m off n).length = n := by
  induction n generalizing off with
  | zero => rfl
  | succ n ih => simp [get, ih]

theorem get_eq_iff {m : Mem} {off n : Nat} {bs : List Octet} (hlen : bs.length = n) :
    get m off n = bs ↔ ∀ i < n, m (off + i) = bs.getD i 0 := by
  induction n generalizing off bs with
  | zero =>
    obtain rfl := List.length_eq_zero_iff.mp hlen
    simp [get]
  | succ n ih =>
    cases bs with
    | nil => cases hlen
    | cons b bs =>
      have shift : ∀ i, off + 1 + i = off + (i + 1) := by omega
      rw [get, List.cons.injEq, ih (Nat.succ.inj hlen)]
      simp only [shift]
      constructor
      · rintro ⟨head, tail⟩ i hi
        cases i with
        | zero => exact head
        | succ i => exact tail i (Nat.lt_of_succ_lt_succ hi)
      · intro all
        exact ⟨all 0 (Nat.succ_pos n), fun i hi => all (i + 1) (Nat.succ_lt_succ hi)⟩

theorem get_congr {m m' : Mem} {off off' n : Nat}
    (h : ∀ k, k < n → m (off + k) = m' (off' + k)) : get m off n = get m' off' n := by
  induction n generalizing off off' with
  | zero => rfl
  | succ n ih =>
    have tail : get m (off + 1) n = get m' (off' + 1) n := by
      apply ih
      intro k hk
      simpa only [Nat.add_assoc, Nat.add_comm 1] using h (k + 1) (by omega)
    have head : m off = m' off' := h 0 (by omega)
    rw [get, get, head, tail]

theorem get_add (m : Mem) (off a b : Nat) :
    get m off (a + b) = get m off a ++ get m (off + a) b := by
  induction a generalizing off with
  | zero => rw [Nat.zero_add, get, List.nil_append, Nat.add_zero]
  | succ a ih => rw [Nat.succ_add, get, ih, get, List.cons_append, Nat.add_right_comm off 1 a,
      Nat.add_assoc off a 1]

theorem get_snoc (m : Mem) (off n : Nat) : get m off (n + 1) = get m off n ++ [m (off + n)] :=
  get_add m off n 1

theorem get_take (m : Mem) (off : Nat) {k n : Nat} (h : k ≤ n) :
    (get m off n).take k = get m off k := by
  rw [← Nat.add_sub_cancel' h, get_add, List.take_left' (get_length m off k)]

theorem get_drop (m : Mem) (off : Nat) {k n : Nat} (h : k ≤ n) :
    (get m off n).drop k = get m (off + k) (n - k) := by
  conv_lhs => rw [← Nat.add_sub_cancel' h]
  rw [get_add, List.drop_left' (get_length m off k)]

theorem get_put_same (m : Mem) (off : Nat) (bs : List Octet) :
    get (put m off bs) off bs.length = bs := by
  induction bs generalizing m off with
  | nil => rfl
  | cons b bs ih =>
    rw [List.length_cons, get, put, ih, put_outside _ _ _ _ (by omega),
      Function.update_self]

theorem get_ext {m m' : Mem} {off n : Nat} (h : get m off n = get m' off n) {i : Nat}
    (hlo : off ≤ i) (hi : i < off + n) : m i = m' i := by
  induction n generalizing off with
  | zero => omega
  | succ n ih =>
    rw [get, get, List.cons.injEq] at h
    rcases Nat.eq_or_lt_of_le hlo with rfl | hlt
    · exact h.1
    · exact ih h.2 hlt (by omega)

/-- The value of octets read MSB first. -/
def beVal : List Octet → Nat
  | [] => 0
  | b :: bs => b.toNat * 256 ^ bs.length + beVal bs

/-- The word of width `w` whose octets, MSB first, are given. -/
def ofBe (w : Nat) (bs : List Octet) : BitVec w := BitVec.ofNat w (beVal bs)

variable {w : Nat}

/-- The low `n` octets of a word, MSB first. -/
def be (x : BitVec w) : Nat → List Octet
  | 0 => []
  | n + 1 => (x >>> (8 * n)).setWidth 8 :: be x n

@[simp] theorem be_length (x : BitVec w) (n : Nat) : (be x n).length = n := by
  induction n with
  | zero => rfl
  | succ n ih => simp [be, ih]

theorem beVal_be (x : BitVec w) (n : Nat) : beVal (be x n) = x.toNat % 256 ^ n := by
  induction n with
  | zero => simp [be, beVal, Nat.mod_one]
  | succ n ih =>
    have hpow : 2 ^ (8 * n) = 256 ^ n := by rw [Nat.pow_mul]
    have hsplit : x.toNat % 256 ^ (n + 1) =
        x.toNat % 256 ^ n + 256 ^ n * (x.toNat / 256 ^ n % 256) := Nat.mod_mul
    rw [be, beVal, ih, be_length, BitVec.toNat_setWidth, BitVec.toNat_ushiftRight,
      Nat.shiftRight_eq_div_pow, hpow, hsplit]
    ring

theorem beVal_lt (bs : List Octet) : beVal bs < 256 ^ bs.length := by
  induction bs with
  | nil => simp [beVal]
  | cons b bs ih =>
    have hb : b.toNat + 1 ≤ 256 := b.isLt
    calc b.toNat * 256 ^ bs.length + beVal bs
        < b.toNat * 256 ^ bs.length + 256 ^ bs.length := Nat.add_lt_add_left ih _
      _ = (b.toNat + 1) * 256 ^ bs.length := by ring
      _ ≤ 256 * 256 ^ bs.length := Nat.mul_le_mul_right _ hb
      _ = 256 ^ (bs.length + 1) := by ring

/-- Octets of one length are determined by their value. -/
theorem beVal_injective {bs bs' : List Octet} (hlen : bs.length = bs'.length)
    (h : beVal bs = beVal bs') : bs = bs' := by
  induction bs generalizing bs' with
  | nil => exact (List.length_eq_zero_iff.mp hlen.symm).symm
  | cons b bs ih =>
    cases bs' with
    | nil => cases hlen
    | cons b' bs' =>
      have hlen' : bs.length = bs'.length := Nat.succ.inj hlen
      have head : ∀ (c : Octet) (cs : List Octet),
          beVal (c :: cs) / 256 ^ cs.length = c.toNat ∧
            beVal (c :: cs) % 256 ^ cs.length = beVal cs := by
        intro c cs
        have hlt := beVal_lt cs
        have hpos : 0 < 256 ^ cs.length := Nat.pow_pos (by omega)
        constructor
        · rw [beVal, Nat.mul_comm, Nat.mul_add_div hpos, Nat.div_eq_of_lt hlt, Nat.add_zero]
        · rw [beVal, Nat.mul_comm, Nat.mul_add_mod, Nat.mod_eq_of_lt hlt]
      have hb : b.toNat = b'.toNat := by
        rw [← (head b bs).1, ← (head b' bs').1, h, hlen']
      have htail : beVal bs = beVal bs' := by
        rw [← (head b bs).2, ← (head b' bs').2, h, hlen']
      rw [BitVec.eq_of_toNat_eq hb, ih hlen' htail]

/-- A word of the octets' width determines the octets. -/
theorem ofBe_injective {bs bs' : List Octet} (hlen : bs.length = bs'.length)
    (hw : 8 * bs.length ≤ w) (h : ofBe w bs = ofBe w bs') : bs = bs' := by
  have hfit : ∀ cs : List Octet, cs.length = bs.length → beVal cs < 2 ^ w := by
    intro cs hcs
    calc beVal cs < 256 ^ cs.length := beVal_lt cs
      _ = 2 ^ (8 * cs.length) := by rw [Nat.pow_mul]
      _ ≤ 2 ^ w := Nat.pow_le_pow_right (by omega) (by rw [hcs]; exact hw)
  apply beVal_injective hlen
  have hval := congrArg BitVec.toNat h
  rw [ofBe, ofBe, BitVec.toNat_ofNat, BitVec.toNat_ofNat, Nat.mod_eq_of_lt (hfit bs rfl),
    Nat.mod_eq_of_lt (hfit bs' hlen.symm)] at hval
  exact hval

/-- Reading the octets of a word back gives the word. -/
theorem ofBe_be (x : BitVec w) {n : Nat} (h : w ≤ 8 * n) : ofBe w (be x n) = x := by
  apply BitVec.eq_of_toNat_eq
  have hlt : x.toNat < 256 ^ n := by
    calc x.toNat < 2 ^ w := x.isLt
      _ ≤ 2 ^ (8 * n) := Nat.pow_le_pow_right (by omega) h
      _ = 256 ^ n := by rw [Nat.pow_mul]
  rw [ofBe, BitVec.toNat_ofNat, beVal_be, Nat.mod_eq_of_lt hlt, Nat.mod_eq_of_lt x.isLt]

/-- A word's octets, MSB first, are those it was made of. -/
theorem be_ofBe {n : Nat} {bs : List Octet} (hlen : bs.length = n) (hw : w = 8 * n) :
    be (ofBe w bs) n = bs := by
  have hword : ofBe w (be (ofBe w bs) n) = ofBe w bs := ofBe_be _ hw.le
  exact ofBe_injective (by rw [be_length, hlen]) (by rw [be_length, hw]) hword

/-- The octet that starts `k` bits up a word. -/
theorem octetAt_toNat (x : BitVec 32) (k : Nat) :
    ((x >>> k &&& 0xFF).setWidth 8 : Octet).toNat = x.toNat / 2 ^ k % 256 := by
  have hmask : (0xFF : BitVec 32).toNat = 2 ^ 8 - 1 := rfl
  rw [BitVec.toNat_setWidth, BitVec.toNat_and, hmask, Nat.and_two_pow_sub_one_eq_mod,
    BitVec.toNat_ushiftRight, Nat.shiftRight_eq_div_pow, Nat.mod_mod]

end Octets
