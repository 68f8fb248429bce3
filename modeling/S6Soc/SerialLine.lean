import Mathlib

/-! Asynchronous serial lines: a word goes over the line as a start bit, its bits from the lowest
on, and a stop bit, each for the same number of clocks. A sender shifts the word out at the bottom
of a register, a receiver shifts it in at the top. -/
namespace S6Soc.SerialLine

variable {w c a i j : ℕ} {b : BitVec (w + 1)} {r : BitVec (w + 1)} {x : Bool}

/-- The `i`-th bit time: the start bit, the word, and the line at rest. -/
def symbol (b : BitVec (w + 1)) (i : ℕ) : Bool :=
  if i = 0 then false else if i ≤ w + 1 then b.getLsbD (i - 1) else true

/-- The line `a` clocks after the word was taken; at 0 it is still at rest. -/
def wave (c : ℕ) (b : BitVec (w + 1)) (a : ℕ) : Bool :=
  if a = 0 then true else symbol b ((a - 1) / c)

@[simp] theorem symbol_zero : symbol b 0 = false := rfl

theorem symbol_succ (h : i < w + 1) : symbol b (i + 1) = b.getLsbD i := by
  rw [symbol, if_neg (Nat.succ_ne_zero i), if_pos (Nat.succ_le_of_lt h), Nat.add_sub_cancel]

theorem symbol_stop (h : w + 1 < i) : symbol b i = true := by
  rw [symbol, if_neg (by omega), if_neg (by omega)]

@[simp] theorem wave_zero : wave c b 0 = true := rfl

theorem wave_eq (h : i * c < a) (h' : a ≤ (i + 1) * c) : wave c b a = symbol b i := by
  have hc : (a - 1) / c = i := Nat.div_eq_of_lt_le (by omega) (by omega)
  rw [wave, if_neg (by omega), hc]

theorem wave_start (h : 0 < a) (h' : a ≤ c) : wave c b a = false :=
  wave_eq (i := 0) (by omega) (by omega)

theorem wave_stop (hc : 0 < c) (h : (w + 2) * c < a) : wave c b a = true := by
  rw [wave, if_neg (by omega)]
  exact symbol_stop ((Nat.le_div_iff_mul_le hc).mpr (Nat.le_pred_of_lt h))

/-- `{ x, r[w:1] }`. -/
def shiftIn (x : Bool) (r : BitVec (w + 1)) : BitVec (w + 1) := BitVec.cons x (r.extractLsb' 1 w)

theorem getLsbD_shiftIn {k : ℕ} (hk : k < w + 1) :
    (shiftIn x r).getLsbD k = if k = w then x else r.getLsbD (k + 1) := by
  rw [shiftIn, BitVec.getLsbD_cons, BitVec.getLsbD_extractLsb']
  split_ifs with h
  · rfl
  · rw [Nat.add_comm 1 k]
    simp
    omega

/-- What a sender holds while it sends the `i`-th symbol: those that follow. -/
def Offers (b : BitVec (w + 1)) (i : ℕ) (r : BitVec (w + 1)) : Prop :=
  ∀ k < w + 1, r.getLsbD k = symbol b (i + 1 + k)

theorem offers_word : Offers b 0 b := by
  intro k hk
  rw [show 0 + 1 + k = k + 1 by omega, symbol_succ hk]

theorem Offers.first (h : Offers b i r) : r.getLsbD 0 = symbol b (i + 1) := h 0 (Nat.succ_pos w)

theorem Offers.shift (h : Offers b i r) : Offers b (i + 1) (shiftIn true r) := by
  intro k hk
  rw [getLsbD_shiftIn hk]
  split_ifs with hw
  · exact (symbol_stop (by omega)).symm
  · rw [h (k + 1) (by omega)]
    congr 1
    omega

/-- After the last bit of the word, ones. -/
theorem Offers.ones (h : Offers b i r) (hi : w + 1 ≤ i) : r = BitVec.allOnes (w + 1) := by
  refine BitVec.eq_of_getLsbD_eq fun k hk => ?_
  rw [h k hk, symbol_stop (by omega), BitVec.getLsbD_allOnes]
  exact (decide_eq_true hk).symm

/-- What a receiver holds once it has taken `i` bits of the word. -/
def Collects (b : BitVec (w + 1)) (i : ℕ) (r : BitVec (w + 1)) : Prop :=
  ∀ k < i, r.getLsbD (w + 1 - i + k) = b.getLsbD k

theorem collects_none : Collects b 0 r := fun k hk => absurd hk (Nat.not_lt_zero k)

theorem Collects.shift (h : Collects b i r) (hi : i < w + 1) (hx : x = b.getLsbD i) :
    Collects b (i + 1) (shiftIn x r) := by
  intro k hk
  rw [getLsbD_shiftIn (by omega)]
  rcases Nat.lt_succ_iff_lt_or_eq.mp hk with hlt | rfl
  · rw [if_neg (by omega), ← h k hlt]
    congr 1
    omega
  · rw [if_pos (by omega), hx]

theorem Collects.full (h : Collects b (w + 1) r) : r = b := by
  refine BitVec.eq_of_getLsbD_eq fun k hk => ?_
  have := h k hk
  rwa [Nat.sub_self, Nat.zero_add] at this

/-- A counter that runs down within `c` clocks is at one in the last but one of them. -/
theorem counter_eq_one {counter : BitVec 24} {c j : ℕ} (h : counter.toNat + j + 1 = c) :
    (counter == 1) = decide (j + 1 + 1 = c) := by
  rw [Bool.eq_iff_iff, beq_iff_eq, decide_eq_true_iff]
  constructor
  · intro he
    rw [he] at h
    change 1 + j + 1 = c at h
    omega
  · intro he
    exact BitVec.eq_of_toNat_eq (by change _ = 1; omega)

/-- The states that count the symbols are not the idle one. -/
theorem symbol_ne_idle {i : ℕ} (hi : i ≤ 9) : BitVec.ofNat 4 i ≠ 0xf := by
  intro he
  have := congrArg BitVec.toNat he
  rw [BitVec.toNat_ofNat, Nat.mod_eq_of_lt (by omega)] at this
  change i = 15 at this
  omega

end S6Soc.SerialLine
