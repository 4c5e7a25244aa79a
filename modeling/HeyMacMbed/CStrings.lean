import Mathlib.Data.List.GetD
import HeyMacMbed.Octets

/-!
# NUL-terminated strings

A `char` array is a memory; what it says is the octets up to its first NUL.
`strncpy` stores that NUL only if it comes before the bound, and both outcomes
are characterised below.
-/

open Octets

/-- A string as memory: its characters, then NUL. -/
def cStr (s : List Octet) : Mem := fun i => s.getD i 0

/-- `strncpy(dst, src, n)`: characters up to the NUL, then NULs, `n` in all. -/
def strncpy (dst src : Mem) (n : Nat) : Mem := fun i =>
  if i < n then (if ∃ k ≤ i, src k = 0 then 0 else src i) else dst i

namespace CStrings

/-- The text of a string, which its first NUL ends. -/
def cText (s : List Octet) : List Octet := s.takeWhile (· ≠ 0)

/-- The array holds the string `s` and its NUL. -/
structure Holds (m : Mem) (s : List Octet) : Prop where
  octets : get m 0 (s.length + 1) = s ++ [0]
  plain : 0 ∉ s

/-- What `strlen` returns: the place of the first NUL. -/
def Strlen (m : Mem) (n : Nat) : Prop := m n = 0 ∧ ∀ k < n, m k ≠ 0

theorem getD_nul (s : List Octet) (i : Nat) : (s ++ [0]).getD i 0 = s.getD i 0 := by
  induction s generalizing i with
  | nil => cases i <;> rfl
  | cons c s ih =>
    cases i with
    | zero => rfl
    | succ i => exact ih i

theorem getD_drop (s : List Octet) (n i : Nat) : (s.drop n).getD i 0 = s.getD (n + i) 0 := by
  rw [List.getD_eq_getElem?_getD, List.getElem?_drop, ← List.getD_eq_getElem?_getD]

/-- The string and its NUL from position `n` on. -/
theorem getD_rest (s : List Octet) (n i : Nat) :
    ((s ++ [0]).drop n).getD i 0 = s.getD (n + i) 0 := by
  rw [getD_drop, getD_nul]

/-- Holding a string, character by character and the NUL behind them. -/
theorem holds_iff {m : Mem} {s : List Octet} :
    Holds m s ↔ (∀ i ≤ s.length, m i = s.getD i 0) ∧ 0 ∉ s := by
  have hget : get m 0 (s.length + 1) = s ++ [0] ↔ ∀ i ≤ s.length, m i = s.getD i 0 := by
    rw [get_eq_iff (by simp)]
    simp only [getD_nul, Nat.zero_add, Nat.lt_succ_iff]
  constructor
  · rintro ⟨hoct, hplain⟩
    exact ⟨hget.mp hoct, hplain⟩
  · rintro ⟨hchar, hplain⟩
    exact ⟨hget.mpr hchar, hplain⟩

section Holding
variable {m : Mem} {s : List Octet} (h : Holds m s)
include h

theorem Holds.char {i : Nat} (hi : i ≤ s.length) : m i = s.getD i 0 := (holds_iff.mp h).1 i hi

theorem Holds.nul : m s.length = 0 := by
  simpa using h.char (Nat.le_refl _)

theorem Holds.char_ne {i : Nat} (hi : i < s.length) : m i ≠ 0 := by
  rw [h.char hi.le, List.getD_eq_getElem _ _ hi]
  intro h0
  exact h.plain (h0 ▸ List.getElem_mem hi)

/-- `strlen` measures the string held, so it stays within the array. -/
theorem Holds.strlen_iff {n : Nat} : Strlen m n ↔ n = s.length := by
  constructor
  · rintro ⟨hn, hbefore⟩
    rcases Nat.lt_trichotomy n s.length with hlt | heq | hgt
    · exact absurd hn (h.char_ne hlt)
    · exact heq
    · exact absurd h.nul (hbefore _ hgt)
  · rintro rfl
    exact ⟨h.nul, fun k hk => h.char_ne hk⟩

theorem Holds.get_take {k : Nat} (hk : k ≤ s.length) : get m 0 k = s.take k := by
  have hoct := congrArg (List.take k) h.octets
  rwa [Octets.get_take m 0 (by omega), List.take_append_of_le_length hk] at hoct

/-- An array holds one string only. -/
theorem Holds.unique {t : List Octet} (ht : Holds m t) : s = t := by
  have hlen : s.length = t.length := ht.strlen_iff.mp (h.strlen_iff.mpr rfl)
  have hoct := h.octets
  rw [hlen, ht.octets] at hoct
  exact (List.append_cancel_right hoct).symm

end Holding

/-- Up to the place `strlen` finds there is a string. -/
theorem Strlen.holds {m : Mem} {n : Nat} (h : Strlen m n) : Holds m (get m 0 n) := by
  obtain ⟨hnul, hbefore⟩ := h
  constructor
  · rw [get_length, get_snoc, Nat.zero_add, hnul]
  · intro hmem
    obtain ⟨i, hi, h0⟩ := List.getElem_of_mem hmem
    rw [get_length] at hi
    have hchar := (get_eq_iff (get_length m 0 n)).mp rfl i hi
    rw [List.getD_eq_getElem _ _ (by rw [get_length]; exact hi), h0, Nat.zero_add] at hchar
    exact hbefore i hi hchar

/-- What `c_str()` points to holds the text of the string. -/
theorem holds_cStr (s : List Octet) : Holds (cStr s) (cText s) := by
  apply holds_iff.mpr
  induction s with
  | nil => simp [cText, cStr]
  | cons c s ih =>
    obtain ⟨hchar, hplain⟩ := ih
    by_cases hc : c = 0
    · subst hc
      simp [cText, cStr]
    · have htext : cText (c :: s) = c :: cText s := List.takeWhile_cons_of_pos (by simpa using hc)
      rw [htext]
      constructor
      · intro i hi
        cases i with
        | zero => rfl
        | succ i => exact hchar i (Nat.le_of_succ_le_succ hi)
      · exact List.not_mem_cons_of_ne_of_not_mem (Ne.symm hc) hplain

section Copying
variable (dst : Mem) {src : Mem} {s : List Octet} (h : Holds src s) (n : Nat)
include h

theorem strncpy_char (i : Nat) :
    strncpy dst src n i = if i < n then s.getD i 0 else dst i := by
  unfold strncpy
  split
  · rcases Nat.lt_or_ge i s.length with hlt | hge
    · have hnone : ¬ ∃ k ≤ i, src k = 0 := by
        rintro ⟨k, hk, h0⟩
        exact h.char_ne (by omega) h0
      rw [if_neg hnone, h.char hlt.le]
    · have hsome : ∃ k ≤ i, src k = 0 := ⟨s.length, hge, h.nul⟩
      rw [if_pos hsome, List.getD_eq_default _ _ hge]
  · rfl

/-- A string as long as the bound fills it with characters, none of them NUL. -/
theorem strncpy_full (hlen : n ≤ s.length) {i : Nat} (hi : i < n) :
    strncpy dst src n i ≠ 0 := by
  rw [strncpy_char dst h, if_pos hi, ← h.char (by omega)]
  exact h.char_ne (by omega)

/-- What a copy of `n` octets leaves: the string, exactly if it fits or the array
went on with the rest of it before. -/
theorem holds_strncpy_rest_iff :
    Holds (strncpy dst src n) s ↔
      s.length < n ∨ get dst n (s.length + 1 - n) = (s ++ [0]).drop n := by
  have hrest : Holds (strncpy dst src n) s ↔ ∀ i, n ≤ i → i ≤ s.length → dst i = s.getD i 0 := by
    rw [holds_iff]
    constructor
    · rintro ⟨hchar, _⟩ i hn hi
      rw [← hchar i hi, strncpy_char dst h, if_neg (by omega)]
    · intro hdst
      refine ⟨fun i hi => ?_, h.plain⟩
      rw [strncpy_char dst h]
      split
      · rfl
      · exact hdst i (by omega) hi
  rw [hrest, get_eq_iff (by simp)]
  constructor
  · intro hdst
    rcases Nat.lt_or_ge s.length n with hlt | hge
    · exact Or.inl hlt
    · refine Or.inr fun i hi => ?_
      rw [getD_rest]
      exact hdst (n + i) (by omega) (by omega)
  · rintro (hlt | hdst) i hn hi
    · omega
    · have hi' := hdst (i - n) (by omega)
      rw [getD_rest, Nat.add_sub_cancel' hn] at hi'
      exact hi'

/-- The bound holds the string, cut to fit, exactly if there was nothing to cut. -/
theorem holds_strncpy_cut_iff (hn : 0 < n) :
    Holds (strncpy dst src n) (s.take (n - 1)) ↔ s.length < n := by
  constructor
  · intro hcut
    by_contra hge
    have hlen : (s.take (n - 1)).length = n - 1 := by
      rw [List.length_take]
      omega
    have hnul := hcut.nul
    rw [hlen] at hnul
    exact strncpy_full dst h n (by omega) (by omega) hnul
  · intro hlt
    rw [List.take_of_length_le (by omega)]
    exact (holds_strncpy_rest_iff dst h n).mpr (Or.inl hlt)

end Copying

end CStrings
