import Mathlib

/-!
# Address prefixes

Addresses of a family are bit vectors of its width. A prefix is an address with a number of
leading bits; it contains the addresses that agree with it on them.
-/

namespace Solovey.Net

abbrev IPv4 := BitVec 32

/-- A network of addresses with `w` bits: those that share the first `bits` with `addr`. -/
structure Prefix (w : ℕ) where
  addr : BitVec w
  bits : ℕ
  deriving DecidableEq

namespace Prefix

variable {w : ℕ}

/-- A prefix longer than an address has no members. -/
def contains (p : Prefix w) (a : BitVec w) : Bool :=
  decide (p.bits ≤ w) && (a ^^^ p.addr) >>> (w - p.bits) == 0#w

/-- The prefix with its host bits cleared. -/
def masked (p : Prefix w) : Prefix w :=
  { p with addr := (p.addr >>> (w - p.bits)) <<< (w - p.bits) }

/-- The first and the last address as numbers. -/
def range (p : Prefix w) : ℕ × ℕ :=
  (p.masked.addr.toNat, p.masked.addr.toNat + 2 ^ (w - p.bits) - 1)

/-- Where the host bits begin. -/
theorem toNat_masked (p : Prefix w) :
    p.masked.addr.toNat = p.addr.toNat / 2 ^ (w - p.bits) * 2 ^ (w - p.bits) := by
  have hlt : p.addr.toNat / 2 ^ (w - p.bits) * 2 ^ (w - p.bits) < 2 ^ w :=
    (Nat.div_mul_le_self _ _).trans_lt p.addr.isLt
  simp only [masked, BitVec.toNat_shiftLeft, BitVec.toNat_ushiftRight, Nat.shiftLeft_eq,
    Nat.shiftRight_eq_div_pow]
  exact Nat.mod_eq_of_lt hlt

/-- An address is in a prefix when it agrees with it above the host bits. -/
theorem contains_iff_div {p : Prefix w} (hb : p.bits ≤ w) {a : BitVec w} :
    p.contains a = true ↔ a.toNat / 2 ^ (w - p.bits) = p.addr.toNat / 2 ^ (w - p.bits) := by
  simp only [contains, hb, decide_true, Bool.true_and, beq_iff_eq]
  rw [BitVec.ushiftRight_xor_distrib, BitVec.xor_eq_zero_iff, ← BitVec.toNat_inj]
  simp only [BitVec.toNat_ushiftRight, Nat.shiftRight_eq_div_pow]

theorem contains_iff_range {p : Prefix w} (hb : p.bits ≤ w) {a : BitVec w} :
    p.contains a = true ↔ p.range.1 ≤ a.toNat ∧ a.toNat ≤ p.range.2 := by
  have hp : 0 < 2 ^ (w - p.bits) := Nat.two_pow_pos _
  rw [contains_iff_div hb, range, toNat_masked, Nat.div_eq_iff hp]

theorem bits_le_of_contains {p : Prefix w} {a : BitVec w} (h : p.contains a = true) :
    p.bits ≤ w := by
  simp only [contains, Bool.and_eq_true, decide_eq_true_eq] at h
  exact h.1

theorem range_lt {p : Prefix w} (hb : p.bits ≤ w) : p.range.2 < 2 ^ w := by
  have hp : 0 < 2 ^ (w - p.bits) := Nat.two_pow_pos _
  have hs : 2 ^ w = 2 ^ p.bits * 2 ^ (w - p.bits) := by rw [← pow_add, Nat.add_sub_cancel' hb]
  have hq : p.addr.toNat / 2 ^ (w - p.bits) < 2 ^ p.bits :=
    (Nat.div_lt_iff_lt_mul hp).mpr (hs ▸ p.addr.isLt)
  have he : (p.addr.toNat / 2 ^ (w - p.bits) + 1) * 2 ^ (w - p.bits) ≤ 2 ^ w := by
    rw [hs]
    exact Nat.mul_le_mul_right _ hq
  rw [range, toNat_masked]
  rw [Nat.add_one_mul] at he
  simp only
  omega

/-- An address of the prefix that is neither its first nor its last one. -/
def host (p : Prefix w) (a : BitVec w) : Bool :=
  p.contains a && a.toNat != p.range.1 && a.toNat != p.range.2

end Prefix

end Solovey.Net
