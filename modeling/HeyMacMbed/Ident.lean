import HeyMacMbed.CStrings

/-!
# The identity

The identity's fields are `char` and `uint8_t` arrays, modelled as memories of
which the first octets of the array's size belong to it. The file system and the
JSON library are outside; what they give is a `Credentials`.
-/

open Octets

def hmIdentNameSz : Nat := 64
def hmIdentTacIdSz : Nat := 16
def hmLongAddrSz : Nat := 128 / 8
def hmSecp384r1KeySz : Nat := 2 * 384 / 8

/-- What mounting, opening and parsing the credential file comes to. -/
inductive Credentials where
  | notMounted
  | notOpened
  | parsed (name tacId pubKey : List Octet)

structure HeyMacIdent where
  name : Mem
  tacId : Mem
  longAddr : Mem

namespace HeyMacIdent

/-- The value of a hex digit. -/
def hexDigit (c : Octet) : Option Octet :=
  if 0x30 ≤ c ∧ c ≤ 0x39 then some (c - 0x30)
  else if 0x61 ≤ c ∧ c ≤ 0x66 then some (c - 0x61 + 10)
  else if 0x41 ≤ c ∧ c ≤ 0x46 then some (c - 0x41 + 10)
  else none

/-- Nulls the `n` octets from `i` on. -/
def nullFrom (rBin : Mem) (i n : Nat) : Mem := put rBin i (List.replicate n 0)

/-- The loop of `_hex_to_bin`, with `n` octets to go from `i` on. -/
def hexToBinFrom (hexData : List Octet) (rBin : Mem) (i : Nat) : Nat → Mem
  | 0 => rBin
  | n + 1 =>
    match hexDigit (hexData.getD (2 * i) 0) with
    | none => nullFrom rBin i (n + 1)
    | some hi =>
      match hexDigit (hexData.getD (2 * i + 1) 0) with
      | none => nullFrom rBin i (n + 1)
      | some lo => hexToBinFrom hexData (Function.update rBin i ((hi <<< 4) ||| lo)) (i + 1) n

def hexToBin (hexData : List Octet) (rBin : Mem) (sz : Nat) : Mem :=
  hexToBinFrom hexData rBin 0 sz

/-- The first 128 bits of the key's SHA512, hashed on behind the key. -/
def hashKeyToAddr (sha512 : List Octet → List Octet) (pubKey : List Octet) (rAddr : Mem) : Mem :=
  let hash := sha512 pubKey
  let hash := sha512 (pubKey ++ hash)
  put rAddr 0 (hash.take hmLongAddrSz)

def spoofAddr : List Octet :=
  [0xFD, 0x11, 0x12, 0x13, 0x14, 0x15, 0x16, 0x17, 0x18, 0x19, 0x1A, 0x1B, 0x1C, 0x1D, 0x1E, 0x1F]

/-- "Dean Hall" and "KC4KSU-491". -/
def spoofName : List Octet := [0x44, 0x65, 0x61, 0x6E, 0x20, 0x48, 0x61, 0x6C, 0x6C]
def spoofTacId : List Octet := [0x4B, 0x43, 0x34, 0x4B, 0x53, 0x55, 0x2D, 0x34, 0x39, 0x31]

def spoof (ident : HeyMacIdent) : HeyMacIdent where
  name := put ident.name 0 (spoofName ++ [0])
  tacId := put ident.tacId 0 (spoofTacId ++ [0])
  longAddr := put ident.longAddr 0 spoofAddr

/-- `parse_cred_file()`; `key` is what the stack array for the key holds before. -/
def parseCredFile (sha512 : List Octet → List Octet) (key : Mem) (ident : HeyMacIdent) :
    Credentials → HeyMacIdent
  | .notMounted => ident.spoof
  | .notOpened => ident
  | .parsed name tacId pubKey =>
    let key := hexToBin pubKey key hmSecp384r1KeySz
    { name := strncpy ident.name (cStr name) hmIdentNameSz
      tacId := strncpy ident.tacId (cStr tacId) hmIdentTacIdSz
      longAddr := hashKeyToAddr sha512 (get key 0 hmSecp384r1KeySz) ident.longAddr }

/-- The size of a pointer: what `sizeof` gives for an array parameter. -/
def ptrSz : Nat := 4

def copyTacIdInto (ident : HeyMacIdent) (tacId : Mem) : Mem := strncpy tacId ident.tacId ptrSz

/-- `get_long_addr()` on a little-endian target. -/
def getLongAddr (ident : HeyMacIdent) : BitVec 64 := ofBe 64 (get ident.longAddr 0 8).reverse

end HeyMacIdent
