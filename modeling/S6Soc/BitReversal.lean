import Mathlib

/-! Numbers with their low bits in reverse, and how reversal spreads a window of
consecutive numbers. -/
namespace S6Soc.BitReversal

variable {k j i n s c L N : ℕ}

/-- The low `k` bits of `n`, the lowest on top. -/
def rev : ℕ → ℕ → ℕ
  | 0, _ => 0
  | k + 1, n => 2 * rev k n + n / 2 ^ k % 2

theorem rev_lt (k n : ℕ) : rev k n < 2 ^ k := by
  induction k with
  | zero => exact Nat.one_pos
  | succ k ih =>
    rw [rev, pow_succ]
    omega

/-- The bits above the first `k` stay below them. -/
theorem rev_add (k j n : ℕ) : rev (k + j) n = rev k n * 2 ^ j + rev j (n / 2 ^ k) := by
  induction j with
  | zero => simp [rev]
  | succ j ih =>
    calc rev (k + j + 1) n
        = 2 * (rev k n * 2 ^ j + rev j (n / 2 ^ k)) + n / 2 ^ (k + j) % 2 := by rw [rev, ih]
      _ = rev k n * 2 ^ (j + 1) + (2 * rev j (n / 2 ^ k) + n / 2 ^ k / 2 ^ j % 2) := by
        rw [pow_add, Nat.div_div_eq_div_mul]
        ring
      _ = _ := rfl

theorem rev_succ (k n : ℕ) : rev (k + 1) n = n % 2 * 2 ^ k + rev k (n / 2) := by
  rw [Nat.add_comm, rev_add]
  simp [rev]

/-- Only the low bits count. -/
theorem rev_add_mul (k i n : ℕ) : rev k (i + 2 ^ k * n) = rev k i := by
  induction k generalizing i n with
  | zero => rfl
  | succ k ih =>
    have hmod : (i + 2 ^ (k + 1) * n) % 2 = i % 2 := by
      rw [pow_succ', Nat.mul_assoc]
      omega
    have hdiv : (i + 2 ^ (k + 1) * n) / 2 = i / 2 + 2 ^ k * n := by
      rw [pow_succ', Nat.mul_assoc]
      omega
    rw [rev_succ, hmod, hdiv, ih, ← rev_succ]

theorem rev_rev (k n : ℕ) : rev k (rev k n) = n % 2 ^ k := by
  induction k with
  | zero => simp [rev, Nat.mod_one]
  | succ k ih =>
    have hmod : rev (k + 1) n % 2 = n / 2 ^ k % 2 := by
      rw [rev]
      omega
    have hdiv : rev (k + 1) n / 2 = rev k n := by
      rw [rev]
      omega
    rw [rev_succ, hmod, hdiv, ih, pow_succ, Nat.mod_mul]
    ring

theorem rev_rev_of_lt (h : n < 2 ^ k) : rev k (rev k n) = n := by
  rw [rev_rev, Nat.mod_eq_of_lt h]

/-- An aligned window of `2 ^ k` numbers is spread over `2 ^ j` apart. -/
theorem rev_window (k j : ℕ) {i n : ℕ} (hi : i < 2 ^ k) :
    rev (k + j) (i + 2 ^ k * n) = rev k i * 2 ^ j + rev j n := by
  rw [rev_add, rev_add_mul, Nat.add_mul_div_left _ _ (Nat.two_pow_pos k), Nat.div_eq_of_lt hi,
    Nat.zero_add]

/-- Reversal meets each number below `2 ^ k` once. -/
theorem card_filter_rev (k : ℕ) (p : ℕ → Prop) [DecidablePred p] :
    ((Finset.range (2 ^ k)).filter fun i => p (rev k i)).card =
      ((Finset.range (2 ^ k)).filter p).card := by
  refine Finset.card_nbij' (rev k) (rev k) ?_ ?_ ?_ ?_
  · intro i hi
    obtain ⟨-, hp⟩ := Finset.mem_filter.1 hi
    exact Finset.mem_filter.2 ⟨Finset.mem_range.2 (rev_lt k i), hp⟩
  · intro m hm
    obtain ⟨hlt, hp⟩ := Finset.mem_filter.1 hm
    rw [Finset.mem_range] at hlt
    exact Finset.mem_filter.2 ⟨Finset.mem_range.2 (rev_lt k m), by rwa [rev_rev_of_lt hlt]⟩
  · intro i hi
    exact rev_rev_of_lt (Finset.mem_range.1 (Finset.mem_filter.1 hi).1)
  · intro m hm
    exact rev_rev_of_lt (Finset.mem_range.1 (Finset.mem_filter.1 hm).1)

/-- Thresholds `L` apart from `c` on: how many of them `s` reaches. -/
theorem card_thresholds (hL : 0 < L) (hs : s < N * L) :
    ((Finset.range N).filter fun m => m * L + c ≤ s).card = (s + L - c) / L := by
  have hset : ((Finset.range N).filter fun m => m * L + c ≤ s) =
      Finset.range ((s + L - c) / L) := by
    ext m
    rw [Finset.mem_filter, Finset.mem_range, Finset.mem_range, Nat.lt_div_iff_mul_lt hL]
    constructor
    · rintro ⟨-, h⟩
      omega
    · intro h
      have hle : m * L + c ≤ s := by omega
      exact ⟨Nat.lt_of_mul_lt_mul_right ((Nat.le_of_add_right_le hle).trans_lt hs), hle⟩
  rw [hset, Finset.card_range]

/-- That is `s / L` but for one. -/
theorem thresholds_bounds (hc : c < L) :
    (s + L - c) / L * L ≤ s + L ∧ s ≤ (s + L - c) / L * L + L := by
  have hdiv := Nat.div_add_mod (s + L - c) L
  have hmod := Nat.mod_lt (s + L - c) (Nat.zero_lt_of_lt hc)
  rw [Nat.mul_comm] at hdiv
  omega

/-- How many of the `2 ^ k` reversed numbers of an aligned window `s` reaches. -/
theorem card_window (k j n : ℕ) (hs : s < 2 ^ (k + j)) :
    ((Finset.range (2 ^ k)).filter fun i => rev (k + j) (i + 2 ^ k * n) ≤ s).card =
      (s + 2 ^ j - rev j n) / 2 ^ j := by
  rw [← card_thresholds (Nat.two_pow_pos j) (by rwa [← pow_add]),
    ← card_filter_rev k fun m => m * 2 ^ j + rev j n ≤ s]
  refine congrArg Finset.card (Finset.filter_congr fun i hi => ?_)
  rw [rev_window k j (Finset.mem_range.1 hi)]

/-- The bits of a vector in reverse. -/
theorem toNat_reverse {w : ℕ} (x : BitVec w) : x.reverse.toNat = rev w x.toNat := by
  induction w with
  | zero => exact Nat.lt_one_iff.1 x.reverse.isLt
  | succ w ih =>
    have hmod : rev w (x.toNat % 2 ^ w) = rev w x.toNat := by
      conv_rhs => rw [← Nat.mod_add_div x.toNat (2 ^ w), rev_add_mul]
    have hmsb : x.msb.toNat = x.toNat / 2 ^ w % 2 := by
      rw [BitVec.msb_eq_getLsbD_last, BitVec.getLsbD, Nat.toNat_testBit, Nat.add_sub_cancel]
    rw [BitVec.reverse, BitVec.toNat_concat, ih, BitVec.toNat_setWidth, hmod, hmsb, rev,
      Nat.mul_comm]

end S6Soc.BitReversal
