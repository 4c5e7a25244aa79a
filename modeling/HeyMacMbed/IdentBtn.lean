import HeyMacMbed.Cmd
import HeyMacMbed.IdentCred

/-!
# What the button sends

The button handler takes two things from the identity: the tactical id, which
`copy_tac_id_into` copies by the size of a pointer, and the long address, which
`get_long_addr` reads as a little-endian word and `set_src_addr` writes MSB first.
-/

open Bits Octets CStrings HeyMacFrame

namespace HeyMacFrame

/-- The octets of the SrcAddr field of a frame with a long one. -/
def srcAddrOctets (f : HeyMacFrame) : List Octet := get f.frm (srcPos f.fctl) 8

/-- The setter stores at the place the frame's new flags give, unless a short DstAddr
is reinterpreted. -/
theorem srcAddrOctets_setSrcAddr (f : HeyMacFrame) (a : BitVec 64)
    (hwidth : has f.fctl fctlBitD = true → has f.fctl fctlBitL = true) :
    srcAddrOctets (f.setSrcAddr64 a) = be a 8 := by
  have hset : f.setSrcAddr64 a = f.store (srcPos f.fctl) (be a 8)
      (withAddr f.fctl fctlBitS true) := setSrcAddr_eq f (.long a)
  have hbits : has fctlBitL fctlBitN = false ∧ has fctlBitL fctlBitD = false ∧
      has fctlBitS fctlBitN = false ∧ has fctlBitS fctlBitD = false := by decide
  obtain ⟨hLN, hLD, hSN, hSD⟩ := hbits
  have hpos : srcPos (withAddr f.fctl fctlBitS true) = srcPos f.fctl := by
    have hN := has_withAddr f.fctl fctlBitS true hLN
    have hD := has_withAddr f.fctl fctlBitS true hLD
    rw [hSN, Bool.or_false] at hN
    rw [hSD, Bool.or_false] at hD
    simp only [srcPos, dstPos, addrSz, hN, hD, has_withAddr_L]
    by_cases hDst : has f.fctl fctlBitD = true
    · simp [hDst, hwidth hDst]
    · simp [hDst]
  have hfctl : (f.setSrcAddr64 a).fctl = withAddr f.fctl fctlBitS true := by
    rw [hset]
    exact store_fctl f _ _
  have hget := store_get f (be a 8) (withAddr f.fctl fctlBitS true)
    ((dstPos_ge f.fctl).trans (srcPos_ge f.fctl))
  rw [be_length] at hget
  rw [srcAddrOctets, hfctl, hpos, hset, hget]

end HeyMacFrame

namespace HeyMacIdent

/-- The caller's array holds the tactical id `s` whole: its `strlen` is the id's
length and within the array, and the text command made of it spells the id. -/
structure TacIdWhole (s : List Octet) (tacId : Mem) : Prop where
  array : get tacId 0 (s.length + 1) = s ++ [0]
  strlen : ∀ n, Strlen tacId n ↔ n = s.length
  inside : s.length < hmIdentTacIdSz
  text : ∀ n, Strlen tacId n → HeyMacCmd.txtOctets tacId (BitVec.ofNat 8 n) = 0x83 :: s

/-- Being whole comes down to holding the string. -/
theorem tacIdWhole_iff {s : List Octet} {m : Mem} (hplain : 0 ∉ s)
    (hlen : s.length ≤ hmIdentTacIdSz - 1) : TacIdWhole s m ↔ Holds m s := by
  constructor
  · intro whole
    exact ⟨whole.array, hplain⟩
  · intro held
    have hin : s.length < hmIdentTacIdSz := by
      simp only [hmIdentTacIdSz] at hlen ⊢
      omega
    refine ⟨held.octets, fun n => held.strlen_iff, hin, ?_⟩
    intro n hn
    obtain rfl := held.strlen_iff.mp hn
    have hsz : (BitVec.ofNat 8 s.length).toNat = s.length := by
      simp only [hmIdentTacIdSz] at hin
      rw [BitVec.toNat_ofNat, Nat.mod_eq_of_lt (by omega)]
    have htext : get m 0 s.length = s := by
      rw [get_eq_iff rfl]
      intro i hi
      rw [Nat.zero_add, held.char hi.le]
    rw [HeyMacCmd.txtOctets, hsz, htext]

/-- The tactical id arrives whole if and only if it has at most three characters, or the
caller's array went on with the rest of it and its NUL from index 4 on before the copy. -/
theorem copyTacIdInto_whole_iff (ident : HeyMacIdent) (s : List Octet)
    (hid : Holds ident.tacId s) (hlen : s.length ≤ hmIdentTacIdSz - 1) (tacId : Mem) :
    TacIdWhole s (ident.copyTacIdInto tacId) ↔
      s.length ≤ 3 ∨ get tacId 4 (s.length - 3) = (s ++ [0]).drop 4 := by
  rw [tacIdWhole_iff hid.plain hlen, copyTacIdInto, holds_strncpy_rest_iff tacId hid]
  have hrest : s.length + 1 - ptrSz = s.length - 3 := by
    simp only [ptrSz]
    omega
  rw [hrest, ptrSz, Nat.lt_succ_iff]

theorem copyTacIdInto_whole_short :
    let ident : HeyMacIdent := ⟨fun _ => 0, cStr [0x4B, 0x43, 0x34], fun _ => 0⟩
    TacIdWhole [0x4B, 0x43, 0x34] (ident.copyTacIdInto fun _ => 0x7A) :=
  (copyTacIdInto_whole_iff _ _ (holds_cStr [0x4B, 0x43, 0x34]) (by decide) _).mpr
    (Or.inl (by decide))

/-- Of the spoof tactical id "KC4KSU-491" four characters arrive. -/
theorem copyTacIdInto_not_whole :
    let ident : HeyMacIdent := ⟨fun _ => 0, cStr spoofTacId, fun _ => 0⟩
    ¬ TacIdWhole spoofTacId (ident.copyTacIdInto fun _ => 0x7A) := by
  intro ident whole
  have harray := whole.array
  revert harray
  decide

/-- The identity's octets arrive in the opposite order. -/
theorem srcAddrOctets_getLongAddr (f : HeyMacFrame) (ident : HeyMacIdent)
    (hwidth : has f.fctl fctlBitD = true → has f.fctl fctlBitL = true) :
    srcAddrOctets (f.setSrcAddr64 ident.getLongAddr) = (get ident.longAddr 0 8).reverse := by
  rw [srcAddrOctets_setSrcAddr f _ hwidth, getLongAddr]
  exact be_ofBe (n := 8) (by simp) rfl

/-- The source address on air is the identity's if and only if its first eight octets
read the same from both ends. -/
theorem srcAddr_identity_iff (f : HeyMacFrame) (ident : HeyMacIdent)
    (hwidth : has f.fctl fctlBitD = true → has f.fctl fctlBitL = true) :
    srcAddrOctets (f.setSrcAddr64 ident.getLongAddr) = get ident.longAddr 0 8 ↔
      get ident.longAddr 0 8 = (get ident.longAddr 0 8).reverse := by
  rw [srcAddrOctets_getLongAddr f ident hwidth]
  exact eq_comm

theorem srcAddr_identity_palindrome :
    let f := buildHeader (fun _ => 0) ⟨some 0x1234, some (.long 0x1122), none⟩
    let ident : HeyMacIdent :=
      ⟨fun _ => 0, fun _ => 0, put (fun _ => 0) 0 [1, 2, 3, 4, 4, 3, 2, 1, 5, 6, 7, 8]⟩
    srcAddrOctets (f.setSrcAddr64 ident.getLongAddr) = [1, 2, 3, 4, 4, 3, 2, 1] :=
  (srcAddr_identity_iff _ _ (by decide)).mpr (by decide)

/-- The spoof identity's address goes on air as 17 16 15 14 13 12 11 FD. -/
theorem srcAddr_not_identity :
    let f := (HeyMacFrame.new fun _ => 0).setProtocol .csmaV0
    let ident := (⟨fun _ => 0, fun _ => 0, fun _ => 0⟩ : HeyMacIdent).spoof
    srcAddrOctets (f.setSrcAddr64 ident.getLongAddr) ≠ get ident.longAddr 0 8 := by
  decide

end HeyMacIdent
