import HeyMacMbed.IdentHex

/-!
# Loading credentials

What `parse_cred_file` is to leave behind, whatever the file system and the file
give, and exactly when it does. `strncpy` leaves a string that fills its array
without a NUL, and a file that cannot be opened leaves all fields as they were.
-/

open Octets CStrings

namespace HeyMacIdent

/-- The address hashed from the key that the file's text decodes to. -/
def keyAddr (sha512 : List Octet → List Octet) (pubKey : List Octet) : List Octet :=
  let key := hexOctets pubKey hmSecp384r1KeySz
  (sha512 (key ++ sha512 key)).take hmLongAddrSz

/-- All three fields are the spoof identity. -/
structure IsSpoof (ident : HeyMacIdent) : Prop where
  name : Holds ident.name spoofName
  tacId : Holds ident.tacId spoofTacId
  longAddr : get ident.longAddr 0 hmLongAddrSz = spoofAddr

/-- The fields are the file's: its strings, cut to fit with their NUL, and its key's address. -/
structure IsParsed (sha512 : List Octet → List Octet) (name tacId pubKey : List Octet)
    (ident : HeyMacIdent) : Prop where
  name : Holds ident.name ((cText name).take (hmIdentNameSz - 1))
  tacId : Holds ident.tacId ((cText tacId).take (hmIdentTacIdSz - 1))
  longAddr : get ident.longAddr 0 hmLongAddrSz = keyAddr sha512 pubKey

/-- A whole identity for what the credentials came to. -/
def Loaded (sha512 : List Octet → List Octet) : Credentials → HeyMacIdent → Prop
  | .notMounted, ident => ident.IsSpoof
  | .notOpened, ident => ident.IsSpoof
  | .parsed name tacId pubKey, ident => ident.IsParsed sha512 name tacId pubKey

/-- The credentials with which a whole identity comes of `ident`. -/
def Loads (ident : HeyMacIdent) : Credentials → Prop
  | .notMounted => True
  | .notOpened => ident.IsSpoof
  | .parsed name tacId _ =>
    (cText name).length < hmIdentNameSz ∧ (cText tacId).length < hmIdentTacIdSz

/-- `strcpy` and `memcpy` put the spoof identity over whatever was there. -/
theorem spoof_isSpoof (ident : HeyMacIdent) : ident.spoof.IsSpoof := by
  constructor
  · exact ⟨get_put_same ident.name 0 (spoofName ++ [0]), by decide⟩
  · exact ⟨get_put_same ident.tacId 0 (spoofTacId ++ [0]), by decide⟩
  · exact get_put_same ident.longAddr 0 spoofAddr

section Parsing
variable {sha512 : List Octet → List Octet} (hsha : ∀ bs, (sha512 bs).length = 64)
include hsha

theorem get_hashKeyToAddr (pubKey : List Octet) (m : Mem) :
    get (hashKeyToAddr sha512 (hexOctets pubKey hmSecp384r1KeySz) m) 0 hmLongAddrSz =
      keyAddr sha512 pubKey := by
  have hlen : (keyAddr sha512 pubKey).length = hmLongAddrSz := by
    rw [keyAddr, List.length_take, hsha]
    decide
  have hsame := get_put_same m 0 (keyAddr sha512 pubKey)
  rwa [hlen] at hsame

theorem parsed_iff (key : Mem) (ident : HeyMacIdent) (name tacId pubKey : List Octet) :
    (parseCredFile sha512 key ident (.parsed name tacId pubKey)).IsParsed sha512 name tacId pubKey ↔
      (cText name).length < hmIdentNameSz ∧ (cText tacId).length < hmIdentTacIdSz := by
  have hname := holds_strncpy_cut_iff ident.name (holds_cStr name) hmIdentNameSz (by decide)
  have htac := holds_strncpy_cut_iff ident.tacId (holds_cStr tacId) hmIdentTacIdSz (by decide)
  constructor
  · intro parsed
    exact ⟨hname.mp parsed.name, htac.mp parsed.tacId⟩
  · rintro ⟨hn, ht⟩
    constructor
    · exact hname.mpr hn
    · exact htac.mpr ht
    · simp only [parseCredFile, get_hexToBin]
      exact get_hashKeyToAddr hsha pubKey ident.longAddr

/-- Loading leaves a whole identity if and only if the file system does not mount, or
the file does not open over an identity that is the spoof one already, or the file is
read and both texts leave room for their NUL. -/
theorem parseCredFile_loaded_iff (key : Mem) (ident : HeyMacIdent) (cred : Credentials) :
    Loaded sha512 cred (ident.parseCredFile sha512 key cred) ↔ ident.Loads cred := by
  cases cred with
  | notMounted => exact iff_of_true ident.spoof_isSpoof trivial
  | notOpened => exact Iff.rfl
  | parsed name tacId pubKey => exact parsed_iff hsha key ident name tacId pubKey

end Parsing

/-- SHA512 of the null key and of that key with its hash behind it. -/
def nullKeyHash : List Octet :=
  [0xE8, 0x66, 0xB1, 0x5D, 0xA9, 0xE5, 0xB1, 0x8D, 0x4B, 0x3B, 0xDE, 0x25, 0x0F, 0xC0, 0x8A, 0x20,
   0x83, 0x99, 0x44, 0x0F, 0x37, 0x47, 0x13, 0x13, 0xC5, 0xB4, 0x00, 0x6E, 0x41, 0x51, 0xB0, 0xF4,
   0x46, 0x4B, 0x2C, 0xD7, 0x24, 0x68, 0x99, 0x93, 0x5D, 0x58, 0x66, 0x0C, 0x07, 0x49, 0xCD, 0x11,
   0x57, 0x0B, 0xB8, 0x24, 0x07, 0x60, 0xA6, 0xE4, 0x6B, 0xB1, 0x75, 0xBE, 0x18, 0xCD, 0xAF, 0xFE]
def nullKeyHash2 : List Octet :=
  [0x9C, 0x36, 0x5B, 0x7C, 0xAA, 0xA0, 0x5F, 0x30, 0x62, 0xF4, 0x5E, 0x11, 0x25, 0x73, 0x3B, 0x67,
   0x75, 0x8A, 0x67, 0xA6, 0x98, 0xC7, 0xE6, 0x73, 0xC5, 0xA6, 0x8A, 0x15, 0x12, 0xC2, 0x01, 0xDB,
   0xD9, 0x8B, 0x86, 0xE3, 0x1A, 0x77, 0xFC, 0xA8, 0x08, 0x49, 0xCD, 0x0F, 0xC4, 0xBB, 0x68, 0xAD,
   0x4F, 0xD4, 0x71, 0xBE, 0xF4, 0xE3, 0x13, 0x40, 0x5D, 0xDA, 0x60, 0x2B, 0x26, 0x2C, 0x8E, 0x94]

/-- SHA512 on the two inputs that a file with the null key gives it. -/
def nullKeySha (bs : List Octet) : List Octet :=
  if bs = List.replicate 96 0 then nullKeyHash
  else if bs = List.replicate 96 0 ++ nullKeyHash then nullKeyHash2
  else List.replicate 64 0

theorem nullKeySha_length (bs : List Octet) : (nullKeySha bs).length = 64 := by
  unfold nullKeySha
  split
  · rfl
  · split
    · rfl
    · exact List.length_replicate

/-- A file with short strings and no key over arrays full of 'z'. -/
theorem parseCredFile_loaded_short :
    Loaded nullKeySha (.parsed spoofName spoofTacId [])
      (parseCredFile nullKeySha (fun _ => 0x7A) ⟨fun _ => 0x7A, fun _ => 0x7A, fun _ => 0x7A⟩
        (.parsed spoofName spoofTacId [])) :=
  (parseCredFile_loaded_iff nullKeySha_length _ _ _).mpr (by unfold Loads; decide)

/-- A tactical id of sixteen characters leaves the array without its NUL, and a file
that does not open leaves the arrays full of 'z'. -/
theorem parseCredFile_not_loaded :
    let ident : HeyMacIdent := ⟨fun _ => 0x7A, fun _ => 0x7A, fun _ => 0x7A⟩
    let tacId := List.replicate 16 0x41
    ¬ Loaded nullKeySha (.parsed spoofName tacId [])
        (ident.parseCredFile nullKeySha (fun _ => 0x7A) (.parsed spoofName tacId [])) ∧
      ¬ Loaded nullKeySha .notOpened
        (ident.parseCredFile nullKeySha (fun _ => 0x7A) .notOpened) := by
  intro ident tacId
  constructor
  · rintro ⟨_, htac, _⟩
    have hlast : strncpy ident.tacId (cStr tacId) hmIdentTacIdSz 15 = 0 := htac.nul
    revert hlast
    decide
  · rintro ⟨hname, _, _⟩
    have hfirst := hname.octets
    revert hfirst
    decide

end HeyMacIdent
