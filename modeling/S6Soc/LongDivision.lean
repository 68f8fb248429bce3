import Mathlib.Tactic.Positivity
import Mathlib.Tactic.Ring

/-! Division bit by bit: the divisor, shifted less and less far, is subtracted where it fits. -/
namespace S6Soc

/-- Of the quotient of `n` by `d` all but the last `k` bits are known, and are `q`; what is
left to divide is `r`. -/
structure LongDivision (n d k q r : ℕ) : Prop where
  split : n = q * (d * 2 ^ k) + r
  small : r < d * 2 ^ k

namespace LongDivision

variable {n d k q r : ℕ}

theorem start (h : n < d * 2 ^ k) : LongDivision n d k 0 n := ⟨by omega, h⟩

theorem subtract (h : LongDivision n d (k + 1) q r) (hr : d * 2 ^ k ≤ r) :
    LongDivision n d k (2 * q + 1) (r - d * 2 ^ k) := by
  obtain ⟨hn, hlt⟩ := h
  rw [pow_succ, ← mul_assoc] at hlt
  rw [pow_succ] at hn
  refine ⟨?_, by omega⟩
  calc n = q * (d * (2 ^ k * 2)) + r := hn
    _ = 2 * q * (d * 2 ^ k) + d * 2 ^ k + (r - d * 2 ^ k) := by
      rw [Nat.add_assoc, Nat.add_sub_cancel' hr]
      ring
    _ = (2 * q + 1) * (d * 2 ^ k) + (r - d * 2 ^ k) := by ring

theorem skip (h : LongDivision n d (k + 1) q r) (hr : r < d * 2 ^ k) :
    LongDivision n d k (2 * q) r := by
  obtain ⟨hn, -⟩ := h
  refine ⟨?_, hr⟩
  rw [pow_succ] at hn
  calc n = q * (d * (2 ^ k * 2)) + r := hn
    _ = 2 * q * (d * 2 ^ k) + r := by ring

theorem quotient (h : LongDivision n d 0 q r) : n / d = q := by
  obtain ⟨hn, hlt⟩ := h
  rw [pow_zero, mul_one] at hn hlt
  rw [hn, Nat.add_comm, Nat.add_mul_div_right _ _ (by omega), Nat.div_eq_of_lt hlt, Nat.zero_add]

theorem remainder (h : LongDivision n d 0 q r) : n % d = r := by
  obtain ⟨hn, hlt⟩ := h
  rw [pow_zero, mul_one] at hn hlt
  rw [hn, Nat.add_comm, Nat.add_mul_mod_self_right, Nat.mod_eq_of_lt hlt]

/-- Once a bit of the quotient is set, the divisor is not above the dividend. -/
theorem le_of_ne_zero (h : LongDivision n d k q r) (hq : q ≠ 0) : d ≤ n := by
  rw [h.split]
  calc d ≤ d * 2 ^ k := Nat.le_mul_of_pos_right d (by positivity)
    _ ≤ q * (d * 2 ^ k) := Nat.le_mul_of_pos_left _ (Nat.pos_of_ne_zero hq)
    _ ≤ q * (d * 2 ^ k) + r := Nat.le_add_right _ r

end LongDivision

/-- The quotient of signed words is rounded towards zero, and wraps around. -/
theorem ofInt_tdiv {w : ℕ} (a b : BitVec w) : BitVec.ofInt w (a.toInt.tdiv b.toInt) = a.sdiv b := by
  rw [← BitVec.toInt_inj, BitVec.toInt_ofInt, BitVec.toInt_sdiv]

end S6Soc
