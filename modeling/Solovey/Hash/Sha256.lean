import Solovey.Text.Utf8

/-!
# SHA-256

The hash as its standard defines it, over byte lists, and its hexadecimal text. Proofs use the
function only through `hexDigest_length` and `hexDigest_lowerHex`; nothing rests on the
absence of collisions.
-/

namespace Solovey.Hash

open Solovey.Text

def roundConstants : List UInt32 :=
  [0x428a2f98, 0x71374491, 0xb5c0fbcf, 0xe9b5dba5, 0x3956c25b, 0x59f111f1, 0x923f82a4, 0xab1c5ed5,
   0xd807aa98, 0x12835b01, 0x243185be, 0x550c7dc3, 0x72be5d74, 0x80deb1fe, 0x9bdc06a7, 0xc19bf174,
   0xe49b69c1, 0xefbe4786, 0x0fc19dc6, 0x240ca1cc, 0x2de92c6f, 0x4a7484aa, 0x5cb0a9dc, 0x76f988da,
   0x983e5152, 0xa831c66d, 0xb00327c8, 0xbf597fc7, 0xc6e00bf3, 0xd5a79147, 0x06ca6351, 0x14292967,
   0x27b70a85, 0x2e1b2138, 0x4d2c6dfc, 0x53380d13, 0x650a7354, 0x766a0abb, 0x81c2c92e, 0x92722c85,
   0xa2bfe8a1, 0xa81a664b, 0xc24b8b70, 0xc76c51a3, 0xd192e819, 0xd6990624, 0xf40e3585, 0x106aa070,
   0x19a4c116, 0x1e376c08, 0x2748774c, 0x34b0bcb5, 0x391c0cb3, 0x4ed8aa4a, 0x5b9cca4f, 0x682e6ff3,
   0x748f82ee, 0x78a5636f, 0x84c87814, 0x8cc70208, 0x90befffa, 0xa4506ceb, 0xbef9a3f7, 0xc67178f2]

/-- The eight working variables. -/
structure State where
  a : UInt32
  b : UInt32
  c : UInt32
  d : UInt32
  e : UInt32
  f : UInt32
  g : UInt32
  h : UInt32

def State.initial : State :=
  ⟨0x6a09e667, 0xbb67ae85, 0x3c6ef372, 0xa54ff53a, 0x510e527f, 0x9b05688c, 0x1f83d9ab, 0x5be0cd19⟩

/-- Word by word. -/
def State.add (s t : State) : State :=
  ⟨s.a + t.a, s.b + t.b, s.c + t.c, s.d + t.d, s.e + t.e, s.f + t.f, s.g + t.g, s.h + t.h⟩

def State.words (s : State) : List UInt32 := [s.a, s.b, s.c, s.d, s.e, s.f, s.g, s.h]

/-- Rotation to the right, for `0 < n < 32`. -/
def rotateRight (x n : UInt32) : UInt32 := (x >>> n) ||| (x <<< (32 - n))

def sigma0 (x : UInt32) : UInt32 := rotateRight x 7 ^^^ rotateRight x 18 ^^^ (x >>> 3)

def sigma1 (x : UInt32) : UInt32 := rotateRight x 17 ^^^ rotateRight x 19 ^^^ (x >>> 10)

def Sigma0 (x : UInt32) : UInt32 := rotateRight x 2 ^^^ rotateRight x 13 ^^^ rotateRight x 22

def Sigma1 (x : UInt32) : UInt32 := rotateRight x 6 ^^^ rotateRight x 11 ^^^ rotateRight x 25

/-- The message schedule, newest word first: `n` words are added to the block's sixteen. -/
def schedule : ℕ → List UInt32 → List UInt32
  | 0, ws => ws
  | n + 1, ws =>
    schedule n ((sigma1 (ws.getD 1 0) + ws.getD 6 0 + sigma0 (ws.getD 14 0) + ws.getD 15 0) :: ws)

/-- One of the 64 rounds, with its constant and its word of the schedule. -/
def round (s : State) (kw : UInt32 × UInt32) : State :=
  let ch := (s.e &&& s.f) ^^^ (~~~s.e &&& s.g)
  let maj := (s.a &&& s.b) ^^^ (s.a &&& s.c) ^^^ (s.b &&& s.c)
  let t1 := s.h + Sigma1 s.e + ch + kw.1 + kw.2
  let t2 := Sigma0 s.a + maj
  ⟨t1 + t2, s.a, s.b, s.c, s.d + t1, s.e, s.f, s.g⟩

/-- A block of sixteen words. -/
def compress (s : State) (block : List UInt32) : State :=
  s.add ((roundConstants.zip (schedule 48 block.reverse).reverse).foldl round s)

/-- The `n` lowest bytes of a number, the highest first. -/
def bigEndian : ℕ → ℕ → Bytes
  | 0, _ => []
  | n + 1, x => bigEndian n (x / 256) ++ [.ofNat (x % 256)]

/-- Four bytes, the highest first. -/
def toWord (b : Bytes) : UInt32 := b.foldl (fun w x => w <<< 8 ||| x.toUInt32) 0

/-- The message with its padding: a multiple of 64 bytes. -/
def pad (msg : Bytes) : Bytes :=
  msg ++ [0x80] ++ List.replicate ((119 - msg.length % 64) % 64) 0 ++ bigEndian 8 (8 * msg.length)

/-- The list in pieces of `k` elements; `n` bounds their number. -/
def pieces {α : Type} (k : ℕ) : ℕ → List α → List (List α)
  | 0, _ => []
  | _ + 1, [] => []
  | n + 1, l => l.take k :: pieces k n (l.drop k)

/-- The compression of the padded message, block by block. -/
def sum256 (msg : Bytes) : State :=
  let ws := (pieces 4 (msg.length + 72) (pad msg)).map toWord
  (pieces 16 (msg.length + 72) ws).foldl compress .initial

def hexWord (w : UInt32) : List Char :=
  [28, 24, 20, 16, 12, 8, 4, 0].map fun s => Nat.digitChar (w.toNat / 2 ^ s % 16)

/-- The hash as 64 lower-case hexadecimal digits. -/
def hexDigest (msg : Bytes) : List Char := (sum256 msg).words.flatMap hexWord

theorem hexDigest_length (m : Bytes) : (hexDigest m).length = 64 := rfl

def isLowerHex (c : Char) : Bool := ('a' ≤ c && c ≤ 'f') || c.isDigit

theorem isAlphanum_of_isLowerHex {c : Char} (h : isLowerHex c = true) : c.isAlphanum = true := by
  simp only [isLowerHex, Bool.or_eq_true, Bool.and_eq_true, decide_eq_true_eq] at h
  rcases h with ⟨ha, hf⟩ | hd
  · have hl : c.isLower = true := by
      simp only [Char.isLower, Bool.and_eq_true, decide_eq_true_eq, ge_iff_le,
        UInt32.le_iff_toNat_le]
      exact ⟨UInt32.le_iff_toNat_le.mp ha, (UInt32.le_iff_toNat_le.mp hf).trans (by decide)⟩
    simp [Char.isAlphanum, Char.isAlpha, hl]
  · simp [Char.isAlphanum, hd]

theorem isLowerHex_digitChar : ∀ n < 16, isLowerHex (Nat.digitChar n) = true := by decide

theorem hexDigest_lowerHex (m : Bytes) : ∀ c ∈ hexDigest m, isLowerHex c = true := by
  intro c hc
  simp only [hexDigest, List.mem_flatMap, hexWord, List.mem_map] at hc
  obtain ⟨w, -, s, -, rfl⟩ := hc
  exact isLowerHex_digitChar _ (Nat.mod_lt _ (by decide))

end Solovey.Hash
