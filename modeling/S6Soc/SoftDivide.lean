import Mathlib
import S6Soc.LongDivision

/-! The 64-bit divisions of the C library: `udiv.c` and `umod.c`. -/
namespace S6Soc.ZLib

/-- The loop of `zip_bitrev` for a host, with `n` rounds to go. -/
def zipBitrev.loop (r b : BitVec 32) : ℕ → BitVec 32
  | 0 => r
  | n + 1 => loop ((r <<< 1) ||| (b &&& 1)) (b >>> 1) n

def zipBitrev (a : BitVec 32) : BitVec 32 := zipBitrev.loop 0 a 32

/-- If the low bits under `mask` are all zero, count these `k` and shift them out. -/
def skip (k : BitVec 32) (mask : BitVec 32) (p : BitVec 32 × BitVec 32) : BitVec 32 × BitVec 32 :=
  if p.2 &&& mask = 0 then (p.1 + k, p.2 >>> k.toNat) else p

/-- `cltz` in C, for a host. -/
def cltz (v : BitVec 64) : BitVec 32 :=
  let hv := (v >>> 32).setWidth 32
  let p := if hv = 0 then (32, v.setWidth 32) else (0, hv)
  let p := (p.1, zipBitrev p.2)
  let p := skip 16 0x0ffff p
  let p := skip 8 0x0ff p
  let p := skip 4 0x0f p
  let p := skip 2 0x03 p
  if p.2 &&& 0x01 = 0 then p.1 + 1 else p.1

/-- `cltz` in the assembly of the processor, on `R1` and `R3`: a `TEST` and what is done on
`Z` after it, the conditional instructions leaving the flags. -/
def asmCltz (r1 r2 : BitVec 32) : BitVec 32 :=
  let p := (0, r1)
  let p := if p.2 = 0 then (p.1 + 32, r2) else p
  let p := (p.1, p.2.reverse)
  let p := skip 16 0x0ffff p
  let p := skip 8 0x0ff p
  let p := skip 4 0x0f p
  let p := skip 2 0x03 p
  if p.2 &&& 0x01 = 0 then p.1 + 1 else p.1

/-- For the processor, or for a host. -/
inductive Build
  | zipcpu | host
  deriving DecidableEq

def Build.cltz (k : Build) (v : BitVec 64) : BitVec 32 :=
  match k with
  | .zipcpu => asmCltz ((v >>> 32).setWidth 32) (v.setWidth 32)
  | .host => ZLib.cltz v

/-- The loop of `__udivdi3`. -/
def udivLoop (a b m r : BitVec 64) : BitVec 64 :=
  if _h : 0 < m then
    if b ≤ a then udivLoop (a - b) (b >>> 1) (m >>> 1) (r ||| m)
    else udivLoop a (b >>> 1) (m >>> 1) r
  else r
termination_by m.toNat
decreasing_by
  all_goals
    rw [BitVec.lt_def] at _h
    rw [BitVec.toNat_ushiftRight, Nat.shiftRight_one]
    exact Nat.div_lt_self _h one_lt_two

variable (k : Build) (a b : BitVec 64)

def udivdi3 : BitVec 64 :=
  if a < b then 0
  else if b >>> 32 = 0 ∧ a >>> 32 = 0 then
    let ia := a.setWidth 32
    let ib := b.setWidth 32
    (ia / ib).setWidth 64
  else
    let la := k.cltz a
    let lb := k.cltz b
    let a := a <<< la.toNat
    if (lb - la).slt 32 ∧ (b <<< la.toNat) &&& 0x0ffffffff = 0 then
      let b := b <<< la.toNat
      let ia := (a >>> 32).setWidth 32
      let ib := (b >>> 32).setWidth 32
      (ia / ib : BitVec 32).setWidth 64
    else
      let b := b <<< lb.toNat
      let m := 1#64 <<< (lb - la).toNat
      udivLoop a b m 0

def divdi3 : BitVec 64 :=
  let s := a.slt 0
  let a := if a.slt 0 then -a else a
  let s := if b.slt 0 then !s else s
  let b := if b.slt 0 then -b else b
  let r := udivdi3 k a b
  if s then -r else r

def umoddi3 : BitVec 64 :=
  let r := udivdi3 k a b
  let r := r * b
  a - r

variable {k a b}

theorem getLsbD_loop {r x : BitVec 32} {n j : ℕ} (hn : n ≤ 32) (hj : j < 32) :
    (zipBitrev.loop r x n).getLsbD j =
      if j < n then x.getLsbD (n - 1 - j) else r.getLsbD (j - n) := by
  induction n generalizing r x with
  | zero => simp [zipBitrev.loop]
  | succ n ih =>
    have hone : (x &&& 1).getLsbD (j - n) = (decide (j - n = 0) && x.getLsbD 0) := by
      rw [BitVec.getLsbD_and, show (1 : BitVec 32) = 1#32 from rfl, BitVec.getLsbD_one]
      by_cases h0 : j - n = 0 <;> simp [h0]
    rw [zipBitrev.loop, ih (by omega), BitVec.getLsbD_or, BitVec.getLsbD_ushiftRight,
      BitVec.getLsbD_shiftLeft, hone]
    split
    · rw [if_pos (by omega), show 1 + (n - 1 - j) = n + 1 - 1 - j by omega]
    · split
      · obtain rfl : j = n := by omega
        simp
      · simp [show ¬ j - n = 0 by omega, show j - n < 32 by omega, show ¬ j - n < 1 by omega,
          show j - n - 1 = j - (n + 1) by omega]

theorem zipBitrev_eq (x : BitVec 32) : zipBitrev x = x.reverse := by
  refine BitVec.eq_of_getLsbD_eq fun j hj => ?_
  rw [zipBitrev, getLsbD_loop le_rfl hj, if_pos hj, BitVec.getLsbD_reverse, BitVec.getMsbD]
  simp [hj]

theorem last_skip (p : BitVec 32 × BitVec 32) :
    (if p.2 &&& 0x01 = 0 then p.1 + 1 else p.1) = (skip 1 0x01 p).1 := by
  rw [skip]
  split <;> rfl

theorem asmCltz_eq (v : BitVec 64) :
    asmCltz ((v >>> 32).setWidth 32) (v.setWidth 32) = cltz v := by
  rw [asmCltz, cltz]
  simp only [zipBitrev_eq, zero_add]

theorem reverse_ushiftRight (x : BitVec 32) (n : ℕ) :
    x.reverse >>> n = (x <<< n).reverse := by
  refine BitVec.eq_of_getLsbD_eq fun j hj => ?_
  rw [BitVec.getLsbD_ushiftRight, BitVec.getLsbD_reverse, BitVec.getLsbD_reverse,
    BitVec.getMsbD, BitVec.getMsbD, BitVec.getLsbD_shiftLeft]
  by_cases h : n + j < 32
  · simp [h, hj, show ¬ 31 - j < n by omega, show 31 - j < 32 by omega,
      show 31 - (n + j) = 31 - j - n by omega]
  · simp [h, show 31 - j < n by omega]

/-- The low bits of a reversed word are zero if the word is small. -/
theorem reverse_and_eq_zero {x mask : BitVec 32} {n : ℕ} (hn : n ≤ 32)
    (hmask : ∀ j, mask.getLsbD j = decide (j < n)) :
    x.reverse &&& mask = 0 ↔ x.toNat < 2 ^ (32 - n) := by
  constructor
  · intro h
    refine Nat.lt_pow_two_of_testBit _ fun i hi => ?_
    by_cases h32 : i < 32
    · have hz : (x.reverse &&& mask).getLsbD (31 - i) = false := by rw [h]; simp
      rw [BitVec.getLsbD_and, hmask, BitVec.getLsbD_reverse, BitVec.getMsbD,
        decide_eq_true (by omega), decide_eq_true (by omega), Bool.and_true, Bool.true_and,
        show 32 - 1 - (31 - i) = i by omega] at hz
      exact hz
    · exact Nat.testBit_lt_two_pow (x.isLt.trans_le (Nat.pow_le_pow_right two_pos (by omega)))
  · intro h
    refine BitVec.eq_of_getLsbD_eq fun j hj => ?_
    rw [BitVec.getLsbD_and, hmask, BitVec.getLsbD_reverse, BitVec.getMsbD]
    by_cases hjn : j < n
    · have hz : x.getLsbD (32 - 1 - j) = false := Nat.testBit_lt_two_pow
        (h.trans_le (Nat.pow_le_pow_right two_pos (by omega)))
      simp [hz]
    · simp [hjn]

/-- From the word `x` on, `c₀` having been counted before, zeros have been counted until bit
`lo` or a higher one is set. -/
def Skipped (x lo : ℕ) (c₀ : BitVec 32) (p : BitVec 32 × BitVec 32) : Prop :=
  ∃ c < 32, p.1 = c₀ + BitVec.ofNat 32 c ∧ p.2.reverse.toNat = x * 2 ^ c ∧
    2 ^ lo ≤ p.2.reverse.toNat

theorem skipped_skip {x n : ℕ} {c₀ mask : BitVec 32} {p : BitVec 32 × BitVec 32}
    (h : Skipped x (32 - 2 * n) c₀ p) (hn : n ≤ 16) (hn0 : 0 < n)
    (hmask : ∀ j, mask.getLsbD j = decide (j < n)) :
    Skipped x (32 - n) c₀ (skip (BitVec.ofNat 32 n) mask p) := by
  obtain ⟨c, hc, h1, h2, h3⟩ := h
  obtain ⟨q, r⟩ := p
  obtain ⟨y, rfl⟩ : ∃ y : BitVec 32, r = y.reverse := ⟨r.reverse, by simp⟩
  simp only [BitVec.reverse_reverse_eq] at h1 h2 h3
  have hkn : (BitVec.ofNat 32 n).toNat = n := by
    rw [BitVec.toNat_ofNat, Nat.mod_eq_of_lt (by omega)]
  rw [skip]
  simp only [reverse_and_eq_zero (x := y) (show n ≤ 32 by omega) hmask, hkn]
  split
  · rename_i hlt
    have hy : (y <<< n).toNat = y.toNat * 2 ^ n := by
      rw [BitVec.toNat_shiftLeft, Nat.shiftLeft_eq, Nat.mod_eq_of_lt]
      calc y.toNat * 2 ^ n < 2 ^ (32 - n) * 2 ^ n := Nat.mul_lt_mul_of_pos_right hlt (by positivity)
        _ = 2 ^ 32 := by rw [← pow_add, Nat.sub_add_cancel (by omega)]
    have hx : x * 2 ^ (c + n) = y.toNat * 2 ^ n := by rw [h2, pow_add, mul_assoc]
    have hlow : 2 ^ (32 - n) ≤ y.toNat * 2 ^ n := by
      calc 2 ^ (32 - n) = 2 ^ (32 - 2 * n) * 2 ^ n := by rw [← pow_add]; congr 1; omega
        _ ≤ y.toNat * 2 ^ n := Nat.mul_le_mul_right _ h3
    have hx0 : 0 < x := by
      refine Nat.pos_of_ne_zero fun h0 => ?_
      rw [h0, Nat.zero_mul] at hx
      have : 0 < 2 ^ (32 - n) := by positivity
      omega
    refine ⟨c + n, ?_, ?_, ?_, ?_⟩
    · refine (Nat.pow_lt_pow_iff_right (a := 2) one_lt_two).mp ?_
      calc 2 ^ (c + n) ≤ x * 2 ^ (c + n) := Nat.le_mul_of_pos_left _ hx0
        _ = (y <<< n).toNat := by rw [hx, hy]
        _ < 2 ^ 32 := BitVec.isLt _
    · rw [h1, BitVec.add_assoc, ← BitVec.ofNat_add]
    · rw [reverse_ushiftRight, BitVec.reverse_reverse_eq, hy, hx]
    · rw [reverse_ushiftRight, BitVec.reverse_reverse_eq, hy]
      exact hlow
  · rename_i hge
    refine ⟨c, hc, h1, ?_, ?_⟩
    · simpa using h2
    · simpa using not_lt.mp hge

theorem mask_bits {n : ℕ} (hn : n ≤ 32) (j : ℕ) :
    (BitVec.ofNat 32 (2 ^ n - 1)).getLsbD j = decide (j < n) := by
  rw [BitVec.getLsbD_ofNat, Nat.testBit_two_pow_sub_one, ← Bool.decide_and]
  congr 1
  rw [eq_iff_iff]
  omega

theorem skipped_all (c₀ : BitVec 32) {x : BitVec 32} (hx : x ≠ 0) :
    ∃ c < 32, (skip 1 0x01 (skip 2 0x03 (skip 4 0x0f (skip 8 0x0ff (skip 16 0x0ffff
      (c₀, x.reverse)))))).1 = c₀ + BitVec.ofNat 32 c ∧ 2 ^ 31 ≤ x.toNat * 2 ^ c ∧
        x.toNat * 2 ^ c < 2 ^ 32 := by
  have hpos : x.toNat ≠ 0 := fun h => hx (BitVec.eq_of_toNat_eq h)
  have h0 : Skipped x.toNat (32 - 2 * 16) c₀ (c₀, x.reverse) :=
    ⟨0, by decide, by simp, by simp, by rw [BitVec.reverse_reverse_eq]; simp; omega⟩
  have h1 := skipped_skip h0 (by decide) (by decide) (mask_bits (n := 16) (by decide))
  have h2 := skipped_skip (n := 8) h1 (by decide) (by decide) (mask_bits (by decide))
  have h3 := skipped_skip (n := 4) h2 (by decide) (by decide) (mask_bits (by decide))
  have h4 := skipped_skip (n := 2) h3 (by decide) (by decide) (mask_bits (by decide))
  obtain ⟨c, hc, he, hv, hl⟩ :=
    skipped_skip (n := 1) h4 (by decide) (by decide) (mask_bits (by decide))
  exact ⟨c, hc, he, hv ▸ hl, hv ▸ BitVec.isLt _⟩

theorem cltz_host {v : BitVec 64} (hv : v ≠ 0) : 2 ^ 63 ≤ v.toNat * 2 ^ (cltz v).toNat ∧
    v.toNat * 2 ^ (cltz v).toNat < 2 ^ 64 := by
  have hlt := v.isLt
  have hhigh : (BitVec.setWidth 32 (v >>> 32)).toNat = v.toNat / 2 ^ 32 := by
    rw [BitVec.toNat_setWidth, BitVec.toNat_ushiftRight, Nat.shiftRight_eq_div_pow]
    omega
  rw [cltz, last_skip]
  simp only [zipBitrev_eq]
  split
  · -- The high word is zero: 32 are counted, the others in the low word.
    rename_i h0
    have hlow : (v.setWidth 32).toNat = v.toNat := by
      have : v.toNat / 2 ^ 32 = 0 := by rw [← hhigh, h0]; rfl
      rw [BitVec.toNat_setWidth]
      omega
    have hne : v.setWidth 32 ≠ 0 := by
      intro h
      rw [h] at hlow
      exact hv (BitVec.eq_of_toNat_eq hlow.symm)
    obtain ⟨c, hc, he, hl, hu⟩ := skipped_all 32 hne
    have hcount : (32 + BitVec.ofNat 32 c).toNat = 32 + c := by
      rw [BitVec.toNat_add, BitVec.toNat_ofNat]
      change (32 + _) % _ = _
      omega
    rw [hlow] at hl hu
    rw [he, hcount, pow_add, ← mul_assoc, mul_right_comm]
    omega
  · rename_i h0
    obtain ⟨c, hc, he, hl, hu⟩ := skipped_all 0 h0
    have hcount : (0 + BitVec.ofNat 32 c).toNat = c := by
      rw [zero_add, BitVec.toNat_ofNat, Nat.mod_eq_of_lt (by omega)]
    rw [he, hcount]
    rw [hhigh] at hl hu
    have hp : 2 ^ 32 = 2 ^ (32 - c) * 2 ^ c := by rw [← pow_add, Nat.sub_add_cancel hc.le]
    have hh : v.toNat / 2 ^ 32 < 2 ^ (32 - c) := Nat.lt_of_mul_lt_mul_right (hu.trans_eq hp)
    constructor
    · calc 2 ^ 63 ≤ v.toNat / 2 ^ 32 * 2 ^ c * 2 ^ 32 := by omega
        _ = v.toNat / 2 ^ 32 * 2 ^ 32 * 2 ^ c := by ring
        _ ≤ v.toNat * 2 ^ c := Nat.mul_le_mul_right _ (Nat.div_mul_le_self _ _)
    · calc v.toNat * 2 ^ c < 2 ^ (32 - c) * 2 ^ 32 * 2 ^ c :=
            Nat.mul_lt_mul_of_pos_right (by omega) (by positivity)
        _ = 2 ^ (32 - c) * 2 ^ c * 2 ^ 32 := by ring
        _ = 2 ^ 64 := by rw [← hp]; rfl

/-- Both versions of `cltz` count the leading zeros. -/
theorem cltz_spec {v : BitVec 64} (hv : v ≠ 0) : 2 ^ 63 ≤ v.toNat * 2 ^ (k.cltz v).toNat ∧
    v.toNat * 2 ^ (k.cltz v).toNat < 2 ^ 64 := by
  cases k with
  | zipcpu =>
    rw [Build.cltz, asmCltz_eq]
    exact cltz_host hv
  | host => exact cltz_host hv

/-- With `j` bits of the quotient `q` of `n` by `d` to come, the loop delivers all of it. -/
theorem udivLoop_eq {n d j q : ℕ} {a b m r : BitVec 64} (h : LongDivision n d j q a.toNat)
    (hr : r.toNat = q * 2 ^ j) (hm : m.toNat = 2 ^ j / 2)
    (hb : ∀ i, j = i + 1 → b.toNat = d * 2 ^ i) : (udivLoop a b m r).toNat = n / d := by
  induction j generalizing a b m r q with
  | zero =>
    have hm0 : ¬ 0 < m := by rw [BitVec.lt_def, hm]; decide
    rw [udivLoop, dif_neg hm0, hr, h.quotient, pow_zero, mul_one]
  | succ j ih =>
    have hj : m.toNat = 2 ^ j := by rw [hm, pow_succ, Nat.mul_div_cancel _ two_pos]
    have hm0 : 0 < m := by
      rw [BitVec.lt_def, hj]
      exact Nat.two_pow_pos j
    have hbj := hb j rfl
    have hm' : (m >>> 1).toNat = 2 ^ j / 2 := by
      rw [BitVec.toNat_ushiftRight, Nat.shiftRight_one, hj]
    have hb' (i : ℕ) (hi : j = i + 1) : (b >>> 1).toNat = d * 2 ^ i := by
      rw [BitVec.toNat_ushiftRight, Nat.shiftRight_one, hbj, hi, pow_succ, ← mul_assoc,
        Nat.mul_div_cancel _ two_pos]
    rw [udivLoop, dif_pos hm0]
    by_cases hle : b ≤ a
    · have hle' : d * 2 ^ j ≤ a.toNat := hbj ▸ hle
      rw [if_pos hle]
      refine ih (q := 2 * q + 1) ?_ ?_ hm' hb'
      · rw [BitVec.toNat_sub_of_le hle, hbj]
        exact h.subtract hle'
      · rw [BitVec.toNat_or, hr, hj, ← Nat.shiftLeft_eq, ← Nat.shiftLeft_add_eq_or_of_lt
          (Nat.pow_lt_pow_right one_lt_two (Nat.lt_succ_self j)), Nat.shiftLeft_eq, pow_succ]
        ring
    · rw [if_neg hle]
      refine ih (q := 2 * q) (h.skip ?_) ?_ hm' hb'
      · rw [← hbj]
        exact not_le.mp hle
      · rw [hr, pow_succ]
        ring

theorem toNat_shiftLeft_of_lt {v : BitVec 64} {n : ℕ} (h : v.toNat * 2 ^ n < 2 ^ 64) :
    (v <<< n).toNat = v.toNat * 2 ^ n := by
  rw [BitVec.toNat_shiftLeft, Nat.shiftLeft_eq, Nat.mod_eq_of_lt h]

theorem toNat_high (v : BitVec 64) : ((v >>> 32).setWidth 32).toNat = v.toNat / 2 ^ 32 := by
  have := v.isLt
  rw [BitVec.toNat_setWidth, BitVec.toNat_ushiftRight, Nat.shiftRight_eq_div_pow]
  omega

theorem toNat_low {v : BitVec 64} (h : v >>> 32 = 0) : (v.setWidth 32).toNat = v.toNat := by
  have hz : v.toNat / 2 ^ 32 = 0 := by
    rw [← toNat_high, h]
    rfl
  rw [BitVec.toNat_setWidth]
  omega

theorem toNat_widened (x : BitVec 32) : (x.setWidth 64).toNat = x.toNat := by
  have := x.isLt
  rw [BitVec.toNat_setWidth]
  omega

theorem udivdi3_eq (hb : b ≠ 0) : (udivdi3 k a b).toNat = a.toNat / b.toNat := by
  rw [udivdi3]
  split
  · rename_i hlt
    rw [Nat.div_eq_of_lt hlt]
    rfl
  rename_i hge
  split
  · rename_i hsmall
    rw [toNat_widened, BitVec.toNat_udiv, toNat_low hsmall.1, toNat_low hsmall.2]
  have hba : b.toNat ≤ a.toNat := not_lt.mp hge
  have hb0 : b.toNat ≠ 0 := fun h => hb (BitVec.eq_of_toNat_eq h)
  have ha : a ≠ 0 := by
    rintro rfl
    exact hb0 (Nat.le_zero.mp hba)
  obtain ⟨hal, hau⟩ := cltz_spec (k := k) ha
  obtain ⟨hbl, hbu⟩ := cltz_spec (k := k) hb
  dsimp only
  set la := k.cltz a
  set lb := k.cltz b
  have hle : la.toNat ≤ lb.toNat := by
    by_contra hlt
    have : b.toNat * 2 ^ (lb.toNat + 1) ≤ a.toNat * 2 ^ la.toNat :=
      Nat.mul_le_mul hba (Nat.pow_le_pow_right two_pos (by omega))
    rw [pow_succ, ← mul_assoc] at this
    omega
  have hA : (a <<< la.toNat).toNat = a.toNat * 2 ^ la.toNat := toNat_shiftLeft_of_lt hau
  have hB : (b <<< la.toNat).toNat = b.toNat * 2 ^ la.toNat :=
    toNat_shiftLeft_of_lt ((Nat.mul_le_mul_left _ (Nat.pow_le_pow_right two_pos hle)).trans_lt hbu)
  have hdiv : a.toNat * 2 ^ la.toNat / (b.toNat * 2 ^ la.toNat) = a.toNat / b.toNat :=
    Nat.mul_div_mul_right _ _ (by positivity)
  split
  · -- The shifted divisor is all in the high word.
    rename_i hs
    have hlow : b.toNat * 2 ^ la.toNat % 2 ^ 32 = 0 := by
      have h := congrArg BitVec.toNat hs.2
      rw [BitVec.toNat_and, hB] at h
      rw [← Nat.and_two_pow_sub_one_eq_mod]
      exact h
    rw [toNat_widened, BitVec.toNat_udiv, toNat_high, toNat_high, hA, hB, Nat.div_div_eq_div_mul,
      Nat.mul_div_cancel' (Nat.dvd_of_mod_eq_zero hlow), hdiv]
  · have hsub : (lb - la).toNat = lb.toNat - la.toNat := BitVec.toNat_sub_of_le hle
    have hdist : lb.toNat - la.toNat < 64 := by
      refine (Nat.pow_lt_pow_iff_right (a := 2) one_lt_two).mp ?_
      calc 2 ^ (lb.toNat - la.toNat) ≤ 2 ^ lb.toNat := Nat.pow_le_pow_right two_pos (by omega)
        _ ≤ b.toNat * 2 ^ lb.toNat := Nat.le_mul_of_pos_left _ (Nat.pos_of_ne_zero hb0)
        _ < 2 ^ 64 := hbu
    have hd : b.toNat * 2 ^ la.toNat * 2 ^ (lb.toNat - la.toNat) = b.toNat * 2 ^ lb.toNat := by
      rw [mul_assoc, ← pow_add, Nat.add_sub_cancel' hle]
    have hm : (1#64 <<< (lb - la).toNat).toNat = 2 ^ (lb.toNat - la.toNat) := by
      rw [hsub, BitVec.toNat_shiftLeft, Nat.shiftLeft_eq]
      change 1 * _ % _ = _
      rw [one_mul, Nat.mod_eq_of_lt (Nat.pow_lt_pow_right one_lt_two hdist)]
    rw [← hdiv]
    refine udivLoop_eq (j := lb.toNat - la.toNat + 1) (q := 0) ?_ (by simp) ?_ ?_
    · rw [hA]
      refine .start ?_
      rw [pow_succ, ← mul_assoc, hd]
      omega
    · rw [hm, pow_succ, Nat.mul_div_cancel _ two_pos]
    · intro i hi
      rw [toNat_shiftLeft_of_lt hbu, ← hd, Nat.succ.inj hi]

theorem udivdi3_udiv (hb : b ≠ 0) : udivdi3 k a b = a / b :=
  BitVec.eq_of_toNat_eq ((udivdi3_eq hb).trans (BitVec.toNat_udiv).symm)

theorem umoddi3_eq (hb : b ≠ 0) : (umoddi3 k a b).toNat = a.toNat % b.toNat := by
  have hle : (udivdi3 k a b * b).toNat = a.toNat / b.toNat * b.toNat := by
    rw [BitVec.toNat_mul, udivdi3_eq hb]
    exact Nat.mod_eq_of_lt ((Nat.div_mul_le_self _ _).trans_lt a.isLt)
  have hmod := Nat.div_add_mod' a.toNat b.toNat
  rw [umoddi3,
    BitVec.toNat_sub_of_le (by rw [BitVec.le_def, hle]; exact Nat.div_mul_le_self _ _), hle]
  omega

theorem divdi3_eq (hb : b ≠ 0) : divdi3 k a b = BitVec.ofInt 64 (a.toInt.tdiv b.toInt) := by
  have hs (x : BitVec 64) : x.slt 0 = x.msb := BitVec.slt_zero_eq_msb
  have hne : -b ≠ 0 := by simpa using hb
  rw [ofInt_tdiv, BitVec.sdiv_eq, divdi3]
  simp only [hs]
  cases a.msb <;> cases b.msb <;> simp [udivdi3_udiv hb, udivdi3_udiv hne]

/-- For the processor and for a host. -/
theorem divisions (k : Build) (a b : BitVec 64) (hb : b ≠ 0) :
    (udivdi3 k a b).toNat = a.toNat / b.toNat ∧ (umoddi3 k a b).toNat = a.toNat % b.toNat ∧
      divdi3 k a b = BitVec.ofInt 64 (a.toInt.tdiv b.toInt) :=
  ⟨udivdi3_eq hb, umoddi3_eq hb, divdi3_eq hb⟩

theorem divisions_third : (udivdi3 .zipcpu 0x8000000000000000 3).toNat = 0x8000000000000000 / 3 :=
  (divisions .zipcpu 0x8000000000000000 3 (by decide)).1

end S6Soc.ZLib
