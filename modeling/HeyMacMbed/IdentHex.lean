import HeyMacMbed.Ident

/-!
# Hex decoding

`_hex_to_bin` reads the string without asking for its size. The loop is shown
to store the octets that a plain recursion on the string gives; bounds, values
and the inverse of hex encoding are facts about that recursion.
-/

open Octets CStrings

namespace HeyMacIdent

/-- The `n` octets decoded from a string: its leading pairs, then nulls. -/
def hexOctets : List Octet → Nat → List Octet
  | _, 0 => []
  | c₁ :: c₂ :: s, n + 1 =>
    match hexDigit c₁, hexDigit c₂ with
    | some hi, some lo => ((hi <<< 4) ||| lo) :: hexOctets s n
    | _, _ => List.replicate (n + 1) 0
  | _, n + 1 => List.replicate (n + 1) 0

/-- The number of complete pairs of hex digits a string starts with. -/
def leadingPairs : List Octet → Nat
  | c₁ :: c₂ :: s =>
    if (hexDigit c₁).isSome ∧ (hexDigit c₂).isSome then leadingPairs s + 1 else 0
  | _ => 0

/-- A digit's character, of the case chosen for it. -/
def hexChar (upper : Bool) (d : Octet) : Octet :=
  if d < 10 then 0x30 + d else if upper then 0x41 + (d - 10) else 0x61 + (d - 10)

/-- The hex text of octets; `upper j` chooses the case of the text's digit `j`. -/
def hexText (upper : Nat → Bool) : List Octet → List Octet
  | [] => []
  | b :: bs =>
    hexChar (upper 0) (b >>> 4) :: hexChar (upper 1) (b &&& 0xF) ::
      hexText (fun j => upper (j + 2)) bs

/-- `hex_data[i]`: defined up to `size()`, where the NUL is. -/
def charAt (hexData : List Octet) (i : Nat) : Option Octet :=
  if i ≤ hexData.length then some (hexData.getD i 0) else none

/-- The loop of `_hex_to_bin` with every access to the string checked. -/
def hexToBinChecked (hexData : List Octet) (rBin : Mem) (i : Nat) : Nat → Option Mem
  | 0 => some rBin
  | n + 1 => do
    let c ← charAt hexData (2 * i)
    match hexDigit c with
    | none => some (nullFrom rBin i (n + 1))
    | some hi =>
      let c ← charAt hexData (2 * i + 1)
      match hexDigit c with
      | none => some (nullFrom rBin i (n + 1))
      | some lo => hexToBinChecked hexData (Function.update rBin i ((hi <<< 4) ||| lo)) (i + 1) n

theorem hexDigit_lt {c d : Octet} (h : hexDigit c = some d) : d < 16 := by
  have all : ∀ c : Octet, (hexDigit c).all (· < 16) = true := by decide +kernel
  have hc := all c
  rw [h, Option.all_some] at hc
  exact of_decide_eq_true hc

/-- A digit is a character of the string, never the NUL behind it. -/
theorem lt_of_hexDigit {s : List Octet} {i : Nat} {d : Octet}
    (h : hexDigit (s.getD i 0) = some d) : i < s.length := by
  by_contra hge
  rw [List.getD_eq_default _ _ (by omega)] at h
  cases h

theorem pair_toNat {hi lo : Octet} (hhi : hi < 16) (hlo : lo < 16) :
    ((hi <<< 4) ||| lo).toNat = 16 * hi.toNat + lo.toNat := by
  have hhi' : hi.toNat < 16 := hhi
  have hlo' : lo.toNat < 2 ^ 4 := hlo
  have hshift : hi.toNat <<< 4 = 16 * hi.toNat := by
    rw [Nat.shiftLeft_eq, Nat.mul_comm]
  have hfit : (hi <<< 4).toNat = hi.toNat <<< 4 := by
    rw [BitVec.toNat_shiftLeft, Nat.mod_eq_of_lt]
    omega
  rw [BitVec.toNat_or, hfit, ← Nat.shiftLeft_add_eq_or_of_lt hlo', hshift]

theorem hexDigit_hexChar_hi (upper : Bool) (b : Octet) :
    hexDigit (hexChar upper (b >>> 4)) = some (b >>> 4) := by
  revert upper b
  decide +kernel

theorem hexDigit_hexChar_lo (upper : Bool) (b : Octet) :
    hexDigit (hexChar upper (b &&& 0xF)) = some (b &&& 0xF) := by
  revert upper b
  decide +kernel

theorem octet_of_halves (b : Octet) : ((b >>> 4) <<< 4) ||| (b &&& 0xF) = b := by
  revert b
  decide +kernel

/-- The string starts with a pair of digits, of these values. -/
def Pair (s : List Octet) (hi lo : Octet) : Prop :=
  hexDigit (s.getD 0 0) = some hi ∧ hexDigit (s.getD 1 0) = some lo

/-- The string starts with no digit or with half a pair. -/
def Stop (s : List Octet) : Prop :=
  hexDigit (s.getD 0 0) = none ∨ hexDigit (s.getD 1 0) = none

theorem pair_or_stop (s : List Octet) : (∃ hi lo, Pair s hi lo) ∨ Stop s := by
  cases h₁ : hexDigit (s.getD 0 0) with
  | none => exact Or.inr (Or.inl h₁)
  | some hi =>
    cases h₂ : hexDigit (s.getD 1 0) with
    | none => exact Or.inr (Or.inr h₂)
    | some lo => exact Or.inl ⟨hi, lo, h₁, h₂⟩

theorem Pair.split {s : List Octet} {hi lo : Octet} (h : Pair s hi lo) :
    ∃ c₁ c₂ rest, s = c₁ :: c₂ :: rest ∧ hexDigit c₁ = some hi ∧ hexDigit c₂ = some lo := by
  obtain ⟨h₁, h₂⟩ := h
  rcases s with _ | ⟨c₁, _ | ⟨c₂, rest⟩⟩
  · cases h₁
  · cases h₂
  · exact ⟨c₁, c₂, rest, rfl, h₁, h₂⟩

/-- Where decoding stops the string is too short for a pair, or one of its two
characters is no digit. -/
theorem Stop.split {s : List Octet} (h : Stop s) : s = [] ∨ (∃ c, s = [c]) ∨
    ∃ c₁ c₂ rest, s = c₁ :: c₂ :: rest ∧ (hexDigit c₁ = none ∨ hexDigit c₂ = none) := by
  rcases s with _ | ⟨c₁, _ | ⟨c₂, rest⟩⟩
  · exact Or.inl rfl
  · exact Or.inr (Or.inl ⟨c₁, rfl⟩)
  · exact Or.inr (Or.inr ⟨c₁, c₂, rest, rfl, h⟩)

section Step
variable {s : List Octet} (n : Nat)

theorem hexOctets_pair {hi lo : Octet} (h : Pair s hi lo) :
    hexOctets s (n + 1) = ((hi <<< 4) ||| lo) :: hexOctets (s.drop 2) n := by
  obtain ⟨c₁, c₂, rest, rfl, h₁, h₂⟩ := h.split
  simp [hexOctets, h₁, h₂]

theorem hexOctets_stop (h : Stop s) : hexOctets s (n + 1) = List.replicate (n + 1) 0 := by
  rcases h.split with rfl | ⟨c, rfl⟩ | ⟨c₁, c₂, rest, rfl, h₁ | h₂⟩
  · rfl
  · rfl
  · simp [hexOctets, h₁]
  · simp [hexOctets, h₂]

theorem leadingPairs_pair {hi lo : Octet} (h : Pair s hi lo) :
    leadingPairs s = leadingPairs (s.drop 2) + 1 := by
  obtain ⟨c₁, c₂, rest, rfl, h₁, h₂⟩ := h.split
  simp [leadingPairs, h₁, h₂]

theorem leadingPairs_stop (h : Stop s) : leadingPairs s = 0 := by
  rcases h.split with rfl | ⟨c, rfl⟩ | ⟨c₁, c₂, rest, rfl, h₁ | h₂⟩
  · rfl
  · rfl
  · simp [leadingPairs, h₁]
  · simp [leadingPairs, h₂]

end Step

@[simp] theorem hexOctets_length (s : List Octet) (n : Nat) : (hexOctets s n).length = n := by
  induction n generalizing s with
  | zero => rw [hexOctets, List.length_nil]
  | succ n ih =>
    rcases pair_or_stop s with ⟨hi, lo, h⟩ | h
    · rw [hexOctets_pair n h, List.length_cons, ih]
    · rw [hexOctets_stop n h, List.length_replicate]

/-- The loop stores the octets of the recursion, from wherever it is. -/
theorem hexToBinFrom_eq (s : List Octet) (r : Mem) (i n : Nat) :
    hexToBinFrom s r i n = put r i (hexOctets (s.drop (2 * i)) n) := by
  induction n generalizing r i with
  | zero => rw [hexToBinFrom, hexOctets, put]
  | succ n ih =>
    have hnext : s.drop (2 * (i + 1)) = (s.drop (2 * i)).drop 2 := (List.drop_drop ..).symm
    rw [hexToBinFrom]
    rcases pair_or_stop (s.drop (2 * i)) with ⟨hi, lo, h⟩ | h
    · rw [hexOctets_pair n h]
      obtain ⟨h₁, h₂⟩ := h
      rw [getD_drop] at h₁ h₂
      simp only [Nat.add_zero] at h₁
      simp only [h₁, h₂, ih, hnext, put]
    · rw [hexOctets_stop n h]
      simp only [Stop, getD_drop, Nat.add_zero] at h
      rcases h with h₁ | h₂
      · simp only [h₁, nullFrom]
      · cases h₁ : hexDigit (s.getD (2 * i) 0) <;> simp only [h₂, nullFrom]

theorem hexToBin_eq (s : List Octet) (r : Mem) (sz : Nat) :
    hexToBin s r sz = put r 0 (hexOctets s sz) := hexToBinFrom_eq s r 0 sz

/-- The octets decoded do not depend on what was there before. -/
theorem get_hexToBin (s : List Octet) (r : Mem) (sz : Nat) :
    get (hexToBin s r sz) 0 sz = hexOctets s sz := by
  have hsame := get_put_same r 0 (hexOctets s sz)
  rwa [hexOctets_length, ← hexToBin_eq] at hsame

/-- Every access the loop makes is in range: it gets to a character only behind digits. -/
theorem hexToBinChecked_eq (s : List Octet) (r : Mem) {i : Nat} (n : Nat)
    (hi : 2 * i ≤ s.length) : hexToBinChecked s r i n = some (hexToBinFrom s r i n) := by
  induction n generalizing r i with
  | zero => rfl
  | succ n ih =>
    have hfirst : charAt s (2 * i) = some (s.getD (2 * i) 0) := if_pos hi
    simp only [hexToBinChecked, hexToBinFrom, hfirst, Option.bind_eq_bind, Option.bind_some]
    cases h₁ : hexDigit (s.getD (2 * i) 0) with
    | none => rfl
    | some hi =>
      have hsecond : charAt s (2 * i + 1) = some (s.getD (2 * i + 1) 0) := if_pos (lt_of_hexDigit h₁)
      simp only [hsecond, Option.bind_some]
      cases h₂ : hexDigit (s.getD (2 * i + 1) 0) with
      | none => rfl
      | some lo => exact ih _ (lt_of_hexDigit h₂)

/-- As long as pairs lead, an octet is the value of its pair. -/
theorem hexOctets_value {s : List Octet} {n i : Nat} (hlt : i < n) (hlead : i < leadingPairs s) :
    ∃ hi lo, hexDigit (s.getD (2 * i) 0) = some hi ∧ hexDigit (s.getD (2 * i + 1) 0) = some lo ∧
      (hexOctets s n).getD i 0 = (hi <<< 4) ||| lo := by
  induction n generalizing s i with
  | zero => omega
  | succ n ih =>
    rcases pair_or_stop s with ⟨hi, lo, h⟩ | h
    · rw [hexOctets_pair n h]
      rw [leadingPairs_pair h] at hlead
      cases i with
      | zero => exact ⟨hi, lo, h.1, h.2, rfl⟩
      | succ i =>
        obtain ⟨hi', lo', h₁, h₂, hval⟩ := ih (s := s.drop 2) (i := i) (by omega) (by omega)
        rw [getD_drop, Nat.add_comm 2] at h₁ h₂
        exact ⟨hi', lo', h₁, h₂, hval⟩
    · rw [leadingPairs_stop h] at hlead
      omega

/-- From the first pair that is not complete on, the octets are null. -/
theorem hexOctets_null {s : List Octet} {n i : Nat} (hlead : leadingPairs s ≤ i) :
    (hexOctets s n).getD i 0 = 0 := by
  induction n generalizing s i with
  | zero => rw [hexOctets, List.getD_nil]
  | succ n ih =>
    rcases pair_or_stop s with ⟨hi, lo, h⟩ | h
    · rw [leadingPairs_pair h] at hlead
      rw [hexOctets_pair n h]
      obtain ⟨j, rfl⟩ : ∃ j, i = j + 1 := ⟨i - 1, by omega⟩
      exact ih (by omega)
    · rw [hexOctets_stop n h, List.getD_eq_getElem?_getD, List.getElem?_getD_replicate_default_eq]

/-- Decoding the hex text of octets, whatever follows it, gives them back. -/
theorem hexOctets_hexText (upper : Nat → Bool) (b rest : List Octet) :
    hexOctets (hexText upper b ++ rest) b.length = b := by
  induction b generalizing upper with
  | nil => rw [List.length_nil, hexOctets]
  | cons b bs ih =>
    simp only [hexText, List.cons_append, List.length_cons, hexOctets, hexDigit_hexChar_hi,
      hexDigit_hexChar_lo, ih, octet_of_halves]

/-- What decoding `s` into `sz` octets does to memory. -/
structure Decodes (s : List Octet) (r : Mem) (sz : Nat) (r' : Mem) : Prop where
  outside : ∀ i, sz ≤ i → r' i = r i
  value : ∀ i < min sz (leadingPairs s), ∃ hi lo, hexDigit (s.getD (2 * i) 0) = some hi ∧
    hexDigit (s.getD (2 * i + 1) 0) = some lo ∧ (r' i).toNat = 16 * hi.toNat + lo.toNat
  null : ∀ i, min sz (leadingPairs s) ≤ i → i < sz → r' i = 0
  inverse : ∀ upper b rest, s = hexText upper b ++ rest → b.length = sz → get r' 0 sz = b

/-- `_hex_to_bin` makes no access past the string's NUL and decodes the string. -/
theorem hexToBin_decodes (s : List Octet) (r : Mem) (sz : Nat) :
    hexToBinChecked s r 0 sz = some (hexToBin s r sz) ∧ Decodes s r sz (hexToBin s r sz) := by
  have hget := get_hexToBin s r sz
  have hoct : ∀ i < sz, hexToBin s r sz i = (hexOctets s sz).getD i 0 := by
    intro i hi
    rw [← (get_eq_iff (hexOctets_length s sz)).mp hget i hi, Nat.zero_add]
  constructor
  · exact hexToBinChecked_eq s r sz (Nat.zero_le _)
  constructor
  · intro i hi
    rw [hexToBin_eq]
    exact put_outside _ _ _ _ (Or.inr (by simpa using hi))
  · intro i hlt
    have hsz : i < sz := by omega
    obtain ⟨hi, lo, h₁, h₂, hval⟩ := hexOctets_value (s := s) hsz (by omega)
    refine ⟨hi, lo, h₁, h₂, ?_⟩
    rw [hoct i hsz, hval, pair_toNat (hexDigit_lt h₁) (hexDigit_lt h₂)]
  · intro i hlead hsz
    rw [hoct i hsz]
    exact hexOctets_null (by omega)
  · rintro upper b rest rfl rfl
    rw [hget, hexOctets_hexText]

end HeyMacIdent
