import Solovey.Text.Strings
import Solovey.Text.Utf8

/-!
# Passwords, codes and verifiers

The password hashes of the administrators with their older forms, the time-based codes of a secret
and the verifiers of recovery codes. The key derivations and the message codes are parameters.
-/

namespace Solovey.Accounts

open Solovey.Text

/-- What comes from the cryptographic libraries. -/
structure Crypto where
  /-- `argon2.IDKey` at the parameters of the policy, of a password and a salt. -/
  idKey : Str → Str → Str
  encodePHC : Str → Str → Str
  parsePHC : Str → Option (Str × Str)
  compareBcrypt : Str → Str → Bool
  blocked : Str → Bool
  decodeSecret : Str → Option Str
  /-- The code of a secret for a counter. -/
  code : Str → ℕ → Str
  /-- The verifier of a recovery code of a user, if the text is one. -/
  recoveryVerifier : ℕ → Str → Option Str
  parse_encode : ∀ salt key, parsePHC (encodePHC salt key) = some (salt, key)
  argon2_prefix : ∀ salt key, "$argon2".toList.isPrefixOf (encodePHC salt key) = true

variable (crypto : Crypto)

/-! ## Passwords -/

def minCharacters : ℕ := 15

def maxUTF8Bytes : ℕ := 256

def validateNew (value : Str) : Bool :=
  minCharacters ≤ value.length && utf8Len value ≤ maxUTF8Bytes && !crypto.blocked value

def hash (plaintext salt : Str) : Option Str :=
  if maxUTF8Bytes < utf8Len plaintext then none
  else some (crypto.encodePHC salt (crypto.idKey plaintext salt))

def isRawBcrypt (value : Str) : Bool :=
  "$2a$".toList.isPrefixOf value || "$2b$".toList.isPrefixOf value ||
    "$2y$".toList.isPrefixOf value

structure Verification where
  valid : Bool
  needsRehash : Bool
  deriving DecidableEq

/-- `Verify` of a stored hash: the current form, the two forms of bcrypt, and the password itself of
the oldest backups. An unreadable hash is an error. -/
def verifyPassword (encoded plaintext : Str) : Option Verification :=
  if maxUTF8Bytes < utf8Len plaintext then some ⟨false, false⟩
  else if "$argon2".toList.isPrefixOf encoded then
    (crypto.parsePHC encoded).map fun stored =>
      ⟨crypto.idKey plaintext stored.1 = stored.2, false⟩
  else if "bcrypt:".toList.isPrefixOf encoded then
    some ⟨crypto.compareBcrypt (trimPrefix "bcrypt:".toList encoded) plaintext, true⟩
  else if isRawBcrypt encoded then some ⟨crypto.compareBcrypt encoded plaintext, true⟩
  else some ⟨encoded = plaintext, true⟩

/-- The password is the one that the stored hash is of. -/
def passwordMatches (encoded plaintext : Str) : Bool :=
  (verifyPassword crypto encoded plaintext).any (·.valid)

/-- A hash matches the password that it was made from. -/
theorem passwordMatches_hash {p s e : Str} (h : hash crypto p s = some e) :
    passwordMatches crypto e p = true := by
  unfold hash at h
  split at h
  · cases h
  next hl =>
    cases h
    rw [passwordMatches, verifyPassword, if_neg hl, if_pos (crypto.argon2_prefix _ _),
      crypto.parse_encode, Option.map_some, Option.any_some, decide_eq_true rfl]

/-! ## Time-based codes -/

def digits : ℕ := 6

def period : ℤ := 30

/-- The last counter of the window whose code is the given one. -/
def matchedCounter (raw code : Str) (current : ℤ) : ℤ :=
  [-1, 0, 1].foldl (fun matched offset =>
    if current + offset < 0 then matched
    else if crypto.code raw (current + offset).toNat = code then current + offset
    else matched) (-1)

/-- `Verify` of a code: the counter that it is accepted for. -/
def verifyTOTP (secret code : Str) (now lastAcceptedCounter : ℤ) : Option ℤ :=
  if code.length ≠ digits || !code.all Char.isDigit then none
  else (crypto.decodeSecret secret).bind fun raw =>
    let matched := matchedCounter crypto raw code (now.tdiv period)
    if matched < 0 || matched ≤ lastAcceptedCounter then none else some matched

/-! ## A sample -/

/-- A salt and a key as one text. -/
def samplePack (key : Str) : Str → Str
  | [] => 'y' :: key
  | c :: salt => 'x' :: c :: samplePack key salt

def sampleUnpack : Str → Option (Str × Str)
  | 'x' :: c :: rest => (sampleUnpack rest).map fun stored => (c :: stored.1, stored.2)
  | 'y' :: key => some ([], key)
  | _ => none

theorem sampleUnpack_pack (s k : Str) : sampleUnpack (samplePack k s) = some (s, k) := by
  induction s with
  | nil => rfl
  | cons c s ih => rw [samplePack, sampleUnpack, ih, Option.map_some]

def Crypto.sample : Crypto where
  idKey plaintext _ := plaintext
  encodePHC salt key := "$argon2".toList ++ samplePack key salt
  parsePHC encoded := sampleUnpack (encoded.drop 7)
  compareBcrypt _ _ := false
  blocked _ := false
  decodeSecret secret := some secret
  code _ counter := List.replicate 5 '0' ++ [Char.ofNat (48 + counter % 10)]
  recoveryVerifier _ code := some code
  parse_encode := fun salt key => sampleUnpack_pack salt key
  argon2_prefix := fun _ _ => rfl

end Solovey.Accounts
