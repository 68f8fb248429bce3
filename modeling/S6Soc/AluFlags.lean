import Mathlib
import S6Soc.CpuOps
import S6Soc.ZipCpu

/-! What the flags of a subtraction, an addition or a shift say, and what the condition codes
make of them. -/
namespace S6Soc.CpuOps

/-- The operations whose flags have a meaning in arithmetic; `CMP` is `sub` without a result. -/
inductive Arithmetic
  | sub | add | lsr | lsl | asr
  deriving DecidableEq

def Arithmetic.code : Arithmetic → BitVec 4
  | .sub => 0
  | .add => 2
  | .lsr => 5
  | .lsl => 6
  | .asr => 7

structure Flags where
  v : Bool
  n : Bool
  c : Bool
  z : Bool
  deriving DecidableEq

/-- Bit order is VNCZ. -/
def Flags.bits (f : Flags) : BitVec 4 :=
  BitVec.ofBool f.v ++ BitVec.ofBool f.n ++ BitVec.ofBool f.c ++ BitVec.ofBool f.z

/-- Whether a number is no signed word. -/
def Overflows (x : ℤ) : Prop := x < -2 ^ 31 ∨ 2 ^ 31 ≤ x

instance (x : ℤ) : Decidable (Overflows x) :=
  inferInstanceAs (Decidable (x < -2 ^ 31 ∨ 2 ^ 31 ≤ x))

variable (a b : BitVec 32)

/-- The result, for any count of a shift. -/
def Arithmetic.result : Arithmetic → BitVec 32
  | .sub => BitVec.ofInt 32 (a.toInt - b.toInt)
  | .add => BitVec.ofInt 32 (a.toInt + b.toInt)
  | .lsr => BitVec.ofNat 32 (a.toNat / 2 ^ b.toNat)
  | .lsl => BitVec.ofNat 32 (a.toNat * 2 ^ b.toNat)
  | .asr => BitVec.ofInt 32 (a.toInt / 2 ^ b.toNat)

/-- The borrow, the carry, or the last bit shifted out. -/
def Arithmetic.carry : Arithmetic → Bool
  | .sub => a.toNat < b.toNat
  | .add => 2 ^ 32 ≤ a.toNat + b.toNat
  | .lsr => 0 < b.toNat ∧ a.toNat / 2 ^ (b.toNat - 1) % 2 = 1
  | .lsl => a.toNat * 2 ^ b.toNat / 2 ^ 32 % 2 = 1
  | .asr => 0 < b.toNat ∧ a.toInt / 2 ^ (b.toNat - 1) % 2 = 1

/-- The sign of the exact difference or sum, or of what was shifted. -/
def Arithmetic.negative : Arithmetic → Bool
  | .sub => a.toInt < b.toInt
  | .add => a.toInt + b.toInt < 0
  | .lsr => (Arithmetic.lsr.result a b).msb
  | .lsl => (Arithmetic.lsl.result a b).msb
  | .asr => (Arithmetic.asr.result a b).msb

/-- The difference or sum is no signed word, or a logical shift changed the sign. -/
def Arithmetic.overflow : Arithmetic → Bool
  | .sub => Overflows (a.toInt - b.toInt)
  | .add => Overflows (a.toInt + b.toInt)
  | .lsr => a.msb != (Arithmetic.lsr.result a b).msb
  | .lsl => a.msb != (Arithmetic.lsl.result a b).msb
  | .asr => false

/-- The two are equal, or nothing is left. -/
def Arithmetic.zero : Arithmetic → Bool
  | .sub => a == b
  | .add => Arithmetic.add.result a b == 0
  | .lsr => Arithmetic.lsr.result a b == 0
  | .lsl => Arithmetic.lsl.result a b == 0
  | .asr => Arithmetic.asr.result a b == 0

def Arithmetic.flags (o : Arithmetic) : Flags :=
  ⟨o.overflow a b, o.negative a b, o.carry a b, o.zero a b⟩

variable {a b}

/-- A count of at most 32 is in its six low bits. -/
theorem small_count : (b.extractLsb' 6 26 ≠ 0 ∨ b.getLsbD 5 ∧ b.extractLsb' 0 5 ≠ 0) ↔
    32 < b.toNat := by
  have h5 : b.getLsbD 5 = decide (b.toNat / 32 % 2 = 1) := by
    rw [BitVec.getLsbD, Nat.testBit_eq_decide_div_mod_eq]
  have hh : b.extractLsb' 6 26 ≠ 0 ↔ b.toNat / 64 % 2 ^ 26 ≠ 0 := by
    rw [Ne, ← BitVec.toNat_inj, BitVec.extractLsb'_toNat, Nat.shiftRight_eq_div_pow]
    rfl
  have hl : b.extractLsb' 0 5 ≠ 0 ↔ b.toNat % 32 ≠ 0 := by
    rw [Ne, ← BitVec.toNat_inj, BitVec.extractLsb'_toNat, Nat.shiftRight_zero]
    rfl
  have hlt := b.isLt
  rw [hh, hl, h5, decide_eq_true_iff]
  omega

theorem getLsbD_count (h : ¬ 32 < b.toNat) : b.getLsbD 5 = decide (b.toNat = 32) := by
  rw [BitVec.getLsbD, Nat.testBit_eq_decide_div_mod_eq]
  congr 1
  rw [eq_iff_iff]
  omega

theorem toNat_count (h : b.toNat < 32) : (b.extractLsb' 0 5).toNat = b.toNat := by
  rw [BitVec.extractLsb'_toNat, Nat.shiftRight_zero, Nat.mod_eq_of_lt h]

theorem toNat_append_false : (a ++ (0 : BitVec 1)).toNat = 2 * a.toNat := by
  rw [BitVec.toNat_append, Nat.shiftLeft_eq]
  simp [Nat.mul_comm]

theorem toNat_ofBool_getLsbD (x : BitVec 32) (k : ℕ) :
    (BitVec.ofBool (x.getLsbD k)).toNat = x.toNat / 2 ^ k % 2 := by
  rw [BitVec.toNat_ofBool, BitVec.getLsbD, Nat.toNat_testBit]

theorem toNat_lsrResult : (lsrResult a b).toNat = 2 * a.toNat / 2 ^ b.toNat := by
  have ha := a.isLt
  rw [lsrResult]
  split
  · rename_i h
    rw [small_count] at h
    have hp : 2 ^ 33 ≤ 2 ^ b.toNat := Nat.pow_le_pow_right two_pos h
    exact (Nat.div_eq_of_lt (by omega)).symm
  · rename_i h
    rw [small_count] at h
    rw [getLsbD_count h]
    split
    · rename_i h32
      rw [of_decide_eq_true h32, BitVec.toNat_setWidth, toNat_ofBool_getLsbD]
      omega
    · rename_i h32
      rw [decide_eq_true_iff] at h32
      rw [BitVec.ushiftRight_eq', BitVec.toNat_ushiftRight, toNat_count (by omega),
        toNat_append_false, Nat.shiftRight_eq_div_pow]

theorem toNat_lslResult : (lslResult a b).toNat = a.toNat * 2 ^ b.toNat % 2 ^ 33 := by
  have ha := a.isLt
  rw [lslResult]
  split
  · rename_i h
    rw [small_count] at h
    exact (Nat.mod_eq_zero_of_dvd (Dvd.dvd.mul_left (Nat.pow_dvd_pow 2 h) _)).symm
  · rename_i h
    rw [small_count] at h
    rw [getLsbD_count h]
    split
    · rename_i h32
      rw [of_decide_eq_true h32, BitVec.toNat_append, toNat_ofBool_getLsbD, Nat.shiftLeft_eq]
      change _ ||| 0 = _
      rw [Nat.or_zero]
      omega
    · rename_i h32
      rw [decide_eq_true_iff] at h32
      rw [BitVec.shiftLeft_eq', BitVec.toNat_shiftLeft, toNat_count (by omega),
        BitVec.toNat_setWidth, Nat.mod_eq_of_lt (show a.toNat < 2 ^ 33 by omega), Nat.shiftLeft_eq]

theorem toInt_append_false : (a ++ (0 : BitVec 1)).toInt = 2 * a.toInt := by
  rw [BitVec.toInt_append]
  simp

theorem large_count : b.extractLsb' 5 27 ≠ 0 ↔ 32 ≤ b.toNat := by
  have hlt := b.isLt
  have hh : b.extractLsb' 5 27 ≠ 0 ↔ b.toNat / 32 % 2 ^ 27 ≠ 0 := by
    rw [Ne, ← BitVec.toNat_inj, BitVec.extractLsb'_toNat, Nat.shiftRight_eq_div_pow]
    rfl
  rw [hh]
  omega

theorem toInt_asrResult : (asrResult a b).toInt = 2 * a.toInt / 2 ^ b.toNat := by
  have h1 := a.toInt_lt
  have h2 := a.le_toInt
  rw [asrResult]
  split
  · rename_i h
    rw [large_count] at h
    have hp : (2 : ℤ) ^ 32 ≤ 2 ^ b.toNat := pow_le_pow_right₀ (by decide) h
    rw [BitVec.fill_toInt, ← BitVec.msb_eq_getLsbD_last, BitVec.msb_eq_toInt]
    by_cases ha : a.toInt < 0
    · rw [Int.ediv_eq_neg_one_of_neg_of_le (by omega) (by omega)]
      simp [ha]
    · rw [Int.ediv_eq_zero_of_lt (by omega) (by omega)]
      simp [ha]
  · rename_i h
    rw [large_count] at h
    rw [BitVec.sshiftRight_eq', BitVec.toInt_sshiftRight, toNat_count (by omega),
      toInt_append_false, Int.shiftRight_eq_div_pow]
    rfl

theorem extract_eq_ofNat {x : BitVec 33} {m : ℕ} (h : x.toNat = m) :
    x.extractLsb' 1 32 = BitVec.ofNat 32 (m / 2) := by
  refine BitVec.eq_of_toNat_eq ?_
  rw [BitVec.extractLsb'_toNat, h, Nat.shiftRight_eq_div_pow, BitVec.toNat_ofNat]

theorem extract_eq_ofInt {x : BitVec 33} {m : ℤ} (h : x.toInt = m) :
    x.extractLsb' 1 32 = BitVec.ofInt 32 (m / 2) := by
  refine BitVec.eq_of_toNat_eq ?_
  have hlt := x.isLt
  rw [BitVec.toInt_eq_toNat_cond] at h
  rw [BitVec.extractLsb'_toNat, Nat.shiftRight_eq_div_pow, BitVec.toNat_ofInt]
  split at h <;> omega

theorem low_bit {w : ℕ} {x : BitVec w} : x.getLsbD 0 = decide (x.toNat % 2 = 1) := by
  rw [BitVec.getLsbD, Nat.testBit_eq_decide_div_mod_eq, pow_zero, Nat.div_one]

theorem high_bit {x : BitVec 33} : x.getLsbD 32 = decide (x.toNat / 2 ^ 32 % 2 = 1) := by
  rw [BitVec.getLsbD, Nat.testBit_eq_decide_div_mod_eq]

variable {m : BitVec 64} {o : Arithmetic}

theorem ofInt_toInt_sub : BitVec.ofInt 32 (a.toInt - b.toInt) = a - b := by
  rw [← BitVec.toInt_inj, BitVec.toInt_ofInt, BitVec.toInt_sub]

theorem result_sub_eq_zero : (Arithmetic.sub.result a b == 0) = Arithmetic.sub.zero a b := by
  rw [Bool.eq_iff_iff, beq_iff_eq, Arithmetic.result, ofInt_toInt_sub, Arithmetic.zero, beq_iff_eq]
  exact sub_eq_zero

theorem result_sub : CpuOps.result 0 a b m =
    (Arithmetic.sub.carry a b, Arithmetic.sub.result a b) := by
  have ha := a.isLt
  have hb := b.isLt
  have h : (a.setWidth 33 - b.setWidth 33).toNat = (2 ^ 33 - b.toNat + a.toNat) % 2 ^ 33 := by
    rw [BitVec.toNat_sub, BitVec.toNat_setWidth, BitVec.toNat_setWidth]
    omega
  refine Prod.ext ?_ ?_
  · change (a.setWidth 33 - b.setWidth 33).getLsbD 32 = decide (a.toNat < b.toNat)
    rw [high_bit, h]
    congr 1
    rw [eq_iff_iff]
    omega
  · change (a.setWidth 33 - b.setWidth 33).setWidth 32 = BitVec.ofInt 32 (a.toInt - b.toInt)
    rw [ofInt_toInt_sub]
    refine BitVec.eq_of_toNat_eq ?_
    rw [BitVec.toNat_setWidth, h, BitVec.toNat_sub]
    omega

theorem result_add : CpuOps.result 2 a b m =
    (Arithmetic.add.carry a b, Arithmetic.add.result a b) := by
  have ha := a.isLt
  have hb := b.isLt
  have h : (a.setWidth 33 + b.setWidth 33).toNat = a.toNat + b.toNat := by
    rw [BitVec.toNat_add, BitVec.toNat_setWidth, BitVec.toNat_setWidth]
    omega
  refine Prod.ext ?_ ?_
  · change (a.setWidth 33 + b.setWidth 33).getLsbD 32 = decide (2 ^ 32 ≤ a.toNat + b.toNat)
    rw [high_bit, h]
    congr 1
    rw [eq_iff_iff]
    omega
  · change (a.setWidth 33 + b.setWidth 33).setWidth 32 = BitVec.ofInt 32 (a.toInt + b.toInt)
    rw [BitVec.ofInt_add, BitVec.ofInt_toInt, BitVec.ofInt_toInt]
    refine BitVec.eq_of_toNat_eq ?_
    rw [BitVec.toNat_setWidth, h, BitVec.toNat_add]

theorem double_div (n : ℕ) (k : ℕ) (hk : 0 < k) : 2 * n / 2 ^ k = n / 2 ^ (k - 1) := by
  obtain ⟨k, rfl⟩ := Nat.exists_eq_succ_of_ne_zero hk.ne'
  rw [Nat.succ_sub_one, pow_succ, Nat.mul_comm, Nat.mul_div_mul_right _ _ two_pos]

theorem result_lsr : CpuOps.result 5 a b m =
    (Arithmetic.lsr.carry a b, Arithmetic.lsr.result a b) := by
  refine Prod.ext ?_ ?_
  · change (lsrResult a b).getLsbD 0 = decide (0 < b.toNat ∧ _)
    rw [low_bit, toNat_lsrResult]
    congr 1
    rw [eq_iff_iff]
    obtain h0 | hpos := Nat.eq_zero_or_pos b.toNat
    · rw [h0]
      omega
    · rw [double_div _ _ hpos]
      simp only [hpos, true_and]
  · change (lsrResult a b).extractLsb' 1 32 = BitVec.ofNat 32 _
    rw [extract_eq_ofNat toNat_lsrResult, Nat.div_div_eq_div_mul, Nat.mul_comm _ 2,
      Nat.mul_div_mul_left _ _ two_pos]

theorem result_lsl : CpuOps.result 6 a b m =
    (Arithmetic.lsl.carry a b, Arithmetic.lsl.result a b) := by
  refine Prod.ext ?_ ?_
  · change (lslResult a b).getLsbD 32 = decide (_ = 1)
    rw [high_bit, toNat_lslResult]
    congr 1
    rw [eq_iff_iff]
    omega
  · change (lslResult a b).setWidth 32 = BitVec.ofNat 32 _
    refine BitVec.eq_of_toNat_eq ?_
    rw [BitVec.toNat_setWidth, toNat_lslResult, BitVec.toNat_ofNat]
    omega

theorem low_bit_int {x : BitVec 33} : x.getLsbD 0 = decide (x.toInt % 2 = 1) := by
  rw [low_bit, BitVec.toInt_eq_toNat_cond]
  congr 1
  rw [eq_iff_iff]
  split <;> omega

theorem double_ediv (x : ℤ) (k : ℕ) (hk : 0 < k) : 2 * x / 2 ^ k = x / 2 ^ (k - 1) := by
  obtain ⟨k, rfl⟩ := Nat.exists_eq_succ_of_ne_zero hk.ne'
  rw [Nat.succ_sub_one, pow_succ, Int.mul_comm, Int.mul_ediv_mul_of_pos_left _ _ two_pos]

theorem result_asr : CpuOps.result 7 a b m =
    (Arithmetic.asr.carry a b, Arithmetic.asr.result a b) := by
  refine Prod.ext ?_ ?_
  · change (asrResult a b).getLsbD 0 = decide (0 < b.toNat ∧ _)
    rw [low_bit_int, toInt_asrResult]
    congr 1
    rw [eq_iff_iff]
    obtain h0 | hpos := Nat.eq_zero_or_pos b.toNat
    · rw [h0]
      omega
    · rw [double_ediv _ _ hpos]
      simp only [hpos, true_and]
  · change (asrResult a b).extractLsb' 1 32 = BitVec.ofInt 32 _
    rw [extract_eq_ofInt toInt_asrResult, Int.ediv_ediv_of_nonneg (by positivity), Int.mul_comm _ 2,
      Int.mul_ediv_mul_of_pos _ _ two_pos]

theorem result_eq : CpuOps.result o.code a b m = (o.carry a b, o.result a b) := by
  cases o with
  | sub => exact result_sub
  | add => exact result_add
  | lsr => exact result_lsr
  | lsl => exact result_lsl
  | asr => exact result_asr

theorem msb_ofInt {x : ℤ} (hl : -2 ^ 32 ≤ x) (hu : x < 2 ^ 32) :
    (BitVec.ofInt 32 x).msb = decide (2 ^ 31 ≤ x ∨ -2 ^ 31 ≤ x ∧ x < 0) := by
  rw [BitVec.msb_eq_toInt, BitVec.toInt_ofInt, Int.bmod_def]
  congr 1
  rw [eq_iff_iff]
  split <;> omega

theorem getLsbD_sign (x : BitVec 32) : x.getLsbD 31 = decide (x.toInt < 0) := by
  rw [← BitVec.msb_eq_toInt]
  rfl

/-- The signs of minuend, subtrahend and difference decide on overflow and sign. -/
theorem signs_sub :
    (signsDiffer a b && a.msb != (Arithmetic.sub.result a b).msb) = Arithmetic.sub.overflow a b ∧
      ((Arithmetic.sub.result a b).msb ^^
        (signsDiffer a b && a.msb != (Arithmetic.sub.result a b).msb)) =
        Arithmetic.sub.negative a b := by
  have ha := a.le_toInt
  have ha' := a.toInt_lt
  have hb := b.le_toInt
  have hb' := b.toInt_lt
  rw [Arithmetic.result, msb_ofInt (by omega) (by omega), signsDiffer, getLsbD_sign, getLsbD_sign,
    BitVec.msb_eq_toInt, Arithmetic.overflow, Arithmetic.negative]
  obtain hx | hx := lt_or_ge a.toInt 0 <;> obtain hy | hy := lt_or_ge b.toInt 0 <;>
    simp [hx, hy, Overflows] <;> grind

/-- The signs of the summands and of the sum decide on overflow and sign. -/
theorem signs_add :
    (!signsDiffer a b && a.msb != (Arithmetic.add.result a b).msb) = Arithmetic.add.overflow a b ∧
      ((Arithmetic.add.result a b).msb ^^
        (!signsDiffer a b && a.msb != (Arithmetic.add.result a b).msb)) =
        Arithmetic.add.negative a b := by
  have ha := a.le_toInt
  have ha' := a.toInt_lt
  have hb := b.le_toInt
  have hb' := b.toInt_lt
  rw [Arithmetic.result, msb_ofInt (by omega) (by omega), signsDiffer, getLsbD_sign, getLsbD_sign,
    BitVec.msb_eq_toInt, Arithmetic.overflow, Arithmetic.negative]
  obtain hx | hx := lt_or_ge a.toInt 0 <;> obtain hy | hy := lt_or_ge b.toInt 0 <;>
    simp [hx, hy, Overflows] <;> grind

variable {s : State} {i : Input}

theorem oF_bits : s.oF = Flags.bits ⟨s.v, s.oC.getLsbD 31 ^^ s.vx, s.c, s.oC == 0⟩ := rfl

/-- Whether a change of sign counts as an overflow. -/
def Arithmetic.watched (a b : BitVec 32) : Arithmetic → Bool
  | .sub => signsDiffer a b
  | .add => !signsDiffer a b
  | .lsr | .lsl => true
  | .asr => false

/-- Whether the sign flag is corrected on an overflow. -/
def Arithmetic.corrected (a b : BitVec 32) : Arithmetic → Bool
  | .sub => signsDiffer a b
  | .add => !signsDiffer a b
  | .lsr | .lsl | .asr => false

theorem step_watched (hce : i.iCe) (hop : i.iOp = o.code) :
    (step s i).setOvfl = o.watched i.iA i.iB := by
  simp only [step, hce, if_true, hop]
  cases o <;> simp [Arithmetic.code, Arithmetic.watched]

theorem step_corrected (hce : i.iCe) (hop : i.iOp = o.code) :
    (step s i).keepSgnOnOvfl = o.corrected i.iA i.iB := by
  simp only [step, hce, if_true, hop]
  cases o <;> simp [Arithmetic.code, Arithmetic.corrected]

/-- The result and the flags of an operation, whatever the arithmetic unit did before. -/
theorem step_flags (hce : i.iCe) (hop : i.iOp = o.code) :
    (step s i).oC = o.result i.iA i.iB ∧ (step s i).oF = (o.flags i.iA i.iB).bits := by
  have hr := result_eq (a := i.iA) (b := i.iB) (m := s.rMpyResult) (o := o)
  have hc : (step s i).c = o.carry i.iA i.iB := by
    simp only [step, hce, if_true, hop, hr]
  have ho : (step s i).oC = o.result i.iA i.iB := by
    simp only [step, hce, if_true, hop, hr]
  have hp : (step s i).preSign = i.iA.msb := by
    simp only [step, hce, if_true]
    rfl
  have hw := step_watched (s := s) hce hop
  have hk := step_corrected (s := s) hce hop
  have hv : (step s i).v = o.overflow i.iA i.iB := by
    rw [State.v, ho, hp, hw]
    cases o with
    | sub => exact signs_sub.1
    | add => exact signs_add.1
    | lsr => rfl
    | lsl => rfl
    | asr => rfl
  have hn : ((step s i).oC.getLsbD 31 ^^ (step s i).vx) = o.negative i.iA i.iB := by
    rw [State.vx, ho, hp, hk]
    cases o with
    | sub => exact signs_sub.2
    | add => exact signs_add.2
    | lsr => exact Bool.xor_false _
    | lsl => exact Bool.xor_false _
    | asr => exact Bool.xor_false _
  have hz : ((step s i).oC == 0) = o.zero i.iA i.iB := by
    rw [ho]
    cases o with
    | sub => exact result_sub_eq_zero
    | add => rfl
    | lsr => rfl
    | lsl => rfl
    | asr => rfl
  refine ⟨ho, ?_⟩
  rw [oF_bits, hv, hn, hc, hz]
  rfl

/-- The conditions an instruction may carry, in the order of their codes. -/
inductive Condition
  | always | z | lt | c | v | ne | ge | nc
  deriving DecidableEq

def Condition.code : Condition → BitVec 3
  | .always => 0
  | .z => 1
  | .lt => 2
  | .c => 3
  | .v => 4
  | .ne => 5
  | .ge => 6
  | .nc => 7

def Condition.holds (f : Flags) : Condition → Bool
  | .always => true
  | .z => f.z
  | .lt => f.n
  | .c => f.c
  | .v => f.v
  | .ne => !f.z
  | .ge => !f.n
  | .nc => !f.c

variable {f : Flags} {k : Condition} {w : ZipCpu.State}

/-- The issue logic's masks and values mean what the conditions say. -/
theorem setCond_eq (hk : w.rOpF = ZipCpu.condition k.code) (hf : w.opFl = f.bits) :
    w.setCond = k.holds f := by
  rw [ZipCpu.State.setCond, ZipCpu.State.opF, hk, hf]
  clear hk hf
  obtain ⟨v, n, c, z⟩ := f
  cases k <;> revert v n c z <;> decide

/-- Result, flags and conditions of subtraction, addition and the shifts. -/
theorem flags_and_conditions (hce : i.iCe) (hop : i.iOp = o.code) :
    (step s i).oC = o.result i.iA i.iB ∧ (step s i).oF = (o.flags i.iA i.iB).bits ∧
      ∀ (w : ZipCpu.State) (k : Condition), w.rOpF = ZipCpu.condition k.code →
        w.opFl = (step s i).oF → w.setCond = k.holds (o.flags i.iA i.iB) := by
  obtain ⟨ho, hf⟩ := step_flags hce hop
  exact ⟨ho, hf, fun w k hk hw => setCond_eq hk (hw.trans hf)⟩

def idle : State := ⟨false, false, false, false, 0, false, false, false, 0, 0, 0, false, 0, 0, 0,
  0, 0⟩

/-- `CMP` of the most negative word with one. -/
def cmpLeast : Input := ⟨false, true, 0, 0x80000000, 1⟩

theorem flags_and_conditions_least :
    (step idle cmpLeast).oF = 0b1100 ∧ (Arithmetic.sub.flags 0x80000000 1).n = true :=
  ⟨(flags_and_conditions (s := idle) (i := cmpLeast) (o := .sub) rfl rfl).2.1.trans
    (by decide), by decide⟩

end S6Soc.CpuOps
