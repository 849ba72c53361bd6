import Solovey.Hash.Sha256

/-!
# Numbers in big-endian bytes

Reading back the numbers that `Hash.bigEndian` writes.
-/

namespace Solovey.Data

open Text (Bytes)
open Hash (bigEndian)

/-- The number whose bytes these are, the highest first. -/
def fromBigEndian (b : Bytes) : ℕ := b.foldl (fun n x => n * 256 + x.toNat) 0

theorem fromBigEndian_append_singleton (b : Bytes) (x : UInt8) :
    fromBigEndian (b ++ [x]) = fromBigEndian b * 256 + x.toNat := by
  simp [fromBigEndian]

@[simp] theorem length_bigEndian (n x : ℕ) : (bigEndian n x).length = n := by
  induction n generalizing x with
  | zero => rfl
  | succ n ih => simp [bigEndian, ih]

variable {n : ℕ}

theorem fromBigEndian_bigEndian {x : ℕ} (h : x < 256 ^ n) : fromBigEndian (bigEndian n x) = x := by
  induction n generalizing x with
  | zero =>
    have hx : x = 0 := by simpa using h
    subst hx
    rfl
  | succ n ih =>
    have hd : x / 256 < 256 ^ n := by
      rw [Nat.div_lt_iff_lt_mul (by decide)]
      rwa [pow_succ] at h
    have hb : (UInt8.ofNat (x % 256)).toNat = x % 256 :=
      UInt8.toNat_ofNat_of_lt (Nat.mod_lt _ (by decide))
    rw [bigEndian, fromBigEndian_append_singleton, ih hd, hb]
    omega

theorem bigEndian_fromBigEndian {b : Bytes} (h : b.length = n) :
    bigEndian n (fromBigEndian b) = b := by
  induction n generalizing b with
  | zero =>
    rw [List.length_eq_zero_iff.mp h]
    rfl
  | succ n ih =>
    obtain ⟨f, x, rfl⟩ := List.eq_nil_or_concat' b |>.resolve_left (by rintro rfl; cases h)
    have hf : f.length = n := by simpa using h
    have hx := x.toNat_lt
    have hd : (fromBigEndian f * 256 + x.toNat) / 256 = fromBigEndian f := by omega
    have hm : (fromBigEndian f * 256 + x.toNat) % 256 = x.toNat := by omega
    rw [fromBigEndian_append_singleton, bigEndian, hd, hm, ih hf, UInt8.ofNat_toNat]

theorem bigEndian_injective {x y : ℕ} (hx : x < 256 ^ n) (hy : y < 256 ^ n)
    (h : bigEndian n x = bigEndian n y) : x = y := by
  rw [← fromBigEndian_bigEndian hx, h, fromBigEndian_bigEndian hy]

end Solovey.Data
