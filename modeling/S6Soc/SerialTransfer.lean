import Mathlib.Data.Nat.Init
import S6Soc.Clocked
import S6Soc.LlQspi

/-! What becomes of a word handed to the serial driver: when it is taken, how its bits go
out and come back, and when the chip is let go. -/
namespace S6Soc.LlQspi

/-- `if (i_wr)` at rest, `if ((~o_busy)&&(i_wr))` at the end of a word or after it. -/
def State.takes (s : State) (i : Input) : Bool :=
  match s.state with
  | .idle => s.oSck && i.iWr
  | .ready | .holding => s.oSck && !s.oBusy && i.iWr
  | _ => false

/-- The state `k` clocks after `s`. -/
def State.after (s : State) (is : ℕ → Input) : ℕ → State
  | 0 => s
  | k + 1 => (s.after is k).next (is k)

/-- The bits asked for. -/
def Input.bits (i : Input) : ℕ := 8 * (i.iLen.toNat + 1)

/-- Those sent in one clock of the chip. -/
def Input.step (i : Input) : ℕ := if i.iSpd then 4 else 1

def Input.clocks (i : Input) : ℕ := i.bits / i.step

/-- A bit the chip sends: on four lines, or on the second of them. -/
def bitOf (spd : Bool) (dat : BitVec 4) (r : ℕ) : Bool :=
  if spd then dat.getLsbD r else dat.getLsbD 1

/-- The first word of a chain waits while the chip is being selected. -/
def State.lead (s : State) : ℕ := if s.state = .idle then 2 else 0

/-- The state `k` clocks after the request `i` is presented in `s`. -/
def State.asked (s : State) (i : Input) (is : ℕ → Input) (k : ℕ) : State := (s.next i).after is k

/-- The clock at whose end the last bits are read, and another request may be taken. -/
def State.last (s : State) (i : Input) : ℕ := s.lead + 2 * i.clocks - 1

/-- The request `i`, taken in `s`, is served in the clocks that follow. -/
structure Transfer (s : State) (i : Input) (is : ℕ → Input) : Prop where
  /-- The chip was not selected before the first request of a chain, and still is before
  each of the others. -/
  before : s.oCsN = (s.state == .idle)
  selected : ∀ k ≤ s.last i + 1, (s.asked i is k).oCsN = false
  rises : ∀ k ≤ s.last i,
    ((s.asked i is k).oSck = false ∧ (s.asked i is (k + 1)).oSck = true) ↔
      ∃ j < i.clocks, k = s.lead + 2 * j
  mode : ∀ j < i.clocks, ∀ e < 2,
    (s.asked i is (s.lead + 2 * j + e)).oMod = modOf i.iSpd i.iDir
  sends : ∀ j < i.clocks, ∀ e < 2, ∀ r < i.step,
    (s.asked i is (s.lead + 2 * j + e)).oDat.getLsbD r =
      i.iWord.getLsbD (32 - i.step * (j + 1) + r)
  valid : ∀ k ≤ s.last i + 1, 0 < k ∨ s.state ≠ .ready →
    ((s.asked i is k).oValid = true ↔ k = s.last i + 1)
  word : ∀ p < i.bits, (s.asked i is (s.last i + 1)).oWord.getLsbD p =
    bitOf i.iSpd (is (s.lead + 2 * (i.clocks - 1 - p / i.step) + 1)).iDat (p % i.step)
  alone : ∀ k < s.last i, (s.asked i is k).takes (is k) = false
  /-- Until another request is taken, the clock rests and the word is not shown again. -/
  rests : ∀ m, (∀ k, s.last i ≤ k → k < m → (s.asked i is k).takes (is k) = false) →
    s.last i < m → (s.asked i is m).oSck = true ∧
      (s.last i + 1 < m → (s.asked i is m).oValid = false)
  held : ∀ m, (∀ k, s.last i ≤ k → k < m →
      (s.asked i is k).takes (is k) = false ∧ (is k).iHold = true) →
    s.last i ≤ m → (s.asked i is m).oCsN = false
  /-- Let go of, the chip stays selected for two clocks more in which nothing is taken, and
  then is not selected before another request is. -/
  released : ∀ w, (∀ k, s.last i ≤ k → k < w →
      (s.asked i is k).takes (is k) = false ∧ (is k).iHold = true) →
    s.last i ≤ w → (s.asked i is w).takes (is w) = false → (is w).iHold = false →
      (∀ k, w < k → k < w + 3 →
        (s.asked i is k).oCsN = false ∧ (s.asked i is k).takes (is k) = false) ∧
      ∀ m, w + 3 ≤ m → (∀ k, w + 3 ≤ k → k < m → (s.asked i is k).takes (is k) = false) →
        (s.asked i is m).oCsN = true

/-- What a driver promises of one clock: requests are taken when it is not busy, and only
then, and those it takes are served. -/
def State.Serves (s : State) (i : Input) (is : ℕ → Input) : Prop :=
  (s.takes i = true ↔ i.iWr = true ∧ s.oBusy = false) ∧ (s.takes i = true → Transfer s i is)

variable {s u : State} {i i₁ i₂ : Input} {is : ℕ → Input} {j k m : ℕ}

theorem State.after_succ : s.after is (k + 1) = (s.after is k).next (is k) := rfl

theorem State.asked_succ : s.asked i is (k + 1) = (s.asked i is k).next (is k) := rfl

theorem Sound.after (h : Sound s) (k : ℕ) : Sound (s.after is k) := by
  induction k with
  | zero => exact h
  | succ k ih => exact ih.next

theorem Sound.asked (h : Sound s) (k : ℕ) : Sound (s.asked i is k) := h.next.after k

theorem step_mul_clocks : i.step * i.clocks = i.bits := by
  unfold Input.clocks Input.step Input.bits
  split_ifs <;> omega

theorem bits_le : i.bits ≤ 32 := by
  have := i.iLen.isLt
  unfold Input.bits
  omega

theorem two_le_clocks : 2 ≤ i.clocks := by
  unfold Input.clocks Input.step Input.bits
  split_ifs <;> omega

theorem step_cases : i.iSpd = true ∧ i.step = 4 ∨ i.iSpd = false ∧ i.step = 1 := by
  cases h : i.iSpd <;> simp [Input.step, h]

theorem lenBits_toNat : (lenBits i.iLen).toNat = i.bits := by
  have h : ∀ len : BitVec 2, (lenBits len).toNat = 8 * (len.toNat + 1) := by decide
  exact h i.iLen

theorem stride_toNat : (stride i.iSpd).toNat = i.step := by
  cases h : i.iSpd <;> simp [stride, Input.step, h]

theorem shifted_shiftLeft (w : BitVec 32) :
    shifted i.iSpd (w <<< (i.step * j)) = w <<< (i.step * (j + 1)) := by
  rcases step_cases (i := i) with ⟨hs, hm⟩ | ⟨hs, hm⟩ <;>
    rw [hs, hm, Nat.mul_succ, BitVec.shiftLeft_add] <;> rfl

theorem modOf_getLsbD (spd dir : Bool) : (modOf spd dir).getLsbD 1 = spd := by
  cases spd <;> cases dir <;> rfl

/-- The `j`-th bits of the request `i` are on the line and the clock is low; the chip has
answered `dat 0`, `dat 1`, … to those before. -/
structure Shifting (i : Input) (dat : ℕ → BitVec 4) (j : ℕ) (u : State) : Prop where
  state : u.state = if j + 1 < i.clocks then .bits else .ready
  low : u.oSck = false
  busy : u.oBusy = true
  selected : u.oCsN = false
  mode : u.oMod = modOf i.iSpd i.iDir
  sends : u.oDat = datOf i.iSpd (i.iWord <<< (i.step * j))
  speed : u.rSpd = i.iSpd
  word : u.rWord = i.iWord <<< (i.step * (j + 1))
  left : u.spiLen.toNat + i.step * (j + 1) = i.bits
  input : ∀ p < i.step * j, p < 31 →
    u.rInput.getLsbD p = bitOf i.iSpd (dat (j - 1 - p / i.step)) (p % i.step)

variable {dat : ℕ → BitVec 4}

theorem Shifting.next_eq (h : Shifting i dat j u) : u.next i₁ = { u with
    oSck := true
    oBusy := u.state != .ready || !i₁.iWr
    oValid := false } := by
  have hs := h.state
  apply next_rise _ _ h.low <;> split_ifs at hs <;> simp [hs]

/-- What is read beside what was read before. -/
theorem Shifting.sampled (h : Shifting i dat j u) (hj : j < i.clocks) {p : ℕ}
    (hp : p < i.step * (j + 1)) :
    (u.sampled (dat j)).getLsbD p = bitOf i.iSpd (dat (j - p / i.step)) (p % i.step) := by
  have hb := bits_le (i := i)
  rw [← step_mul_clocks] at hb
  have hle : i.step * (j + 1) ≤ i.step * i.clocks := Nat.mul_le_mul_left _ hj
  have hin := h.input
  rw [State.sampled, h.mode, modOf_getLsbD]
  rcases step_cases (i := i) with ⟨hs, hm⟩ | ⟨hs, hm⟩
  · rw [hm] at hin hp hle hb ⊢
    rw [hs, if_pos rfl, BitVec.getLsbD_append]
    by_cases hlt : p < 4
    · rw [if_pos hlt, Nat.div_eq_of_lt hlt, Nat.mod_eq_of_lt hlt]
      rfl
    · rw [if_neg hlt, BitVec.getLsbD_extractLsb', hin _ (by omega) (by omega)]
      have h₁ : j - 1 - (0 + (p - 4)) / 4 = j - p / 4 := by omega
      have h₂ : (0 + (p - 4)) % 4 = p % 4 := by omega
      have h₃ : p - 4 < 28 := by omega
      rw [h₁, h₂, hs]
      simp [h₃]
  · rw [hm] at hin hp hle hb ⊢
    rw [hs, if_neg (by simp), BitVec.getLsbD_append]
    by_cases hlt : p < 1
    · obtain rfl : p = 0 := by omega
      simp [bitOf]
    · rw [if_neg hlt, hin _ (by omega) (by omega), hs]
      have h₁ : j - 1 - (p - 1) / 1 = j - p / 1 := by omega
      rw [h₁]
      rfl

theorem datOf_getLsbD {r : ℕ} (hj : j < i.clocks) (hr : r < i.step) :
    (datOf i.iSpd (i.iWord <<< (i.step * j))).getLsbD r =
      i.iWord.getLsbD (32 - i.step * (j + 1) + r) := by
  have hb := bits_le (i := i)
  rw [← step_mul_clocks] at hb
  have hle : i.step * (j + 1) ≤ i.step * i.clocks := Nat.mul_le_mul_left _ hj
  rcases step_cases (i := i) with ⟨hs, hm⟩ | ⟨hs, hm⟩
  · rw [hm] at hr hle hb ⊢
    have h₁ : 28 + r - 4 * j = 32 - 4 * (j + 1) + r := by omega
    simp only [datOf, hs, if_true, BitVec.getLsbD_extractLsb', BitVec.getLsbD_shiftLeft]
    rw [← h₁]
    simp [show 28 + r < 32 by omega, show ¬ 28 + r < 4 * j by omega, hr]
  · rw [hm] at hr hle hb ⊢
    obtain rfl : r = 0 := by omega
    have h₁ : 31 - 1 * j = 32 - 1 * (j + 1) + 0 := by omega
    simp only [datOf, hs, Bool.false_eq_true, if_false, BitVec.getLsbD_append,
      BitVec.getLsbD_extractLsb', BitVec.getLsbD_shiftLeft]
    rw [← h₁]
    simp [show ¬ 31 < j by omega]

/-- One bit, or four, further. -/
theorem Shifting.succ (h : Shifting i dat j u) (hj : j + 1 < i.clocks) (hd : i₂.iDat = dat j) :
    Shifting i dat (j + 1) ((u.next i₁).next i₂) := by
  have hs := h.state
  rw [if_pos hj] at hs
  have hl := h.left
  have hk := step_mul_clocks (i := i)
  have hle : i.step * (j + 1 + 1) ≤ i.bits := by
    rw [← hk]
    exact Nat.mul_le_mul_left _ hj
  have hb := bits_le (i := i)
  rw [h.next_eq, next_bits (by exact hs) rfl]
  have hge : stride i.iSpd ≤ u.spiLen := by
    rw [BitVec.le_def, stride_toNat]
    rw [Nat.mul_succ] at hle
    omega
  constructor <;> dsimp only
  · rw [h.speed]
    have hiff : u.spiLen = stride i.iSpd ↔ ¬ j + 1 + 1 < i.clocks := by
      rw [← BitVec.toNat_inj, stride_toNat]
      constructor
      · intro he hlt
        have := Nat.mul_le_mul_left i.step hlt
        rw [hk, Nat.mul_succ, Nat.mul_succ i.step (j + 1)] at this
        rcases step_cases (i := i) with ⟨-, hm⟩ | ⟨-, hm⟩ <;> omega
      · intro hlt
        have he : j + 1 + 1 = i.clocks := by omega
        rw [← hk, ← he, Nat.mul_succ i.step (j + 1)] at hl
        omega
    by_cases hlt : j + 1 + 1 < i.clocks
    · rw [if_pos hlt, if_neg (by rw [hiff]; exact fun hn => hn hlt)]
    · rw [if_neg hlt, if_pos (hiff.2 hlt)]
  · exact h.selected
  · exact h.mode
  · rw [h.speed, h.word]
  · exact h.speed
  · rw [h.speed, h.word, shifted_shiftLeft]
  · rw [h.speed, BitVec.toNat_sub_of_le hge, stride_toNat]
    rw [BitVec.le_def, stride_toNat] at hge
    rw [Nat.mul_succ]
    omega
  · intro p hp h31
    rw [BitVec.getLsbD_setWidth, hd]
    have := h.sampled (by omega) hp
    simp only [State.sampled] at this ⊢
    simp only [h31, decide_true, Bool.true_and, this]
    rfl

theorem Sound.takes_iff (h : Sound s) (hn : ¬ (s.state = .idle ∧ s.oBusy = true ∧ i.iWr = true)) :
    s.takes i = true ↔ i.iWr = true ∧ s.oBusy = false := by
  constructor
  · intro ht
    cases hp : s.state <;> simp only [State.takes, hp, Bool.and_eq_true, Bool.not_eq_true',
      Bool.false_eq_true] at ht
    · refine ⟨ht.2, ?_⟩
      cases hb : s.oBusy with
      | false => rfl
      | true => exact absurd ⟨hp, hb, ht.2⟩ hn
    · exact ⟨ht.2, ht.1.2⟩
    · exact ⟨ht.2, ht.1.2⟩
  · rintro ⟨hw, hb⟩
    rcases h.free hb with hp | ⟨hp, hk⟩ | hp
    · simp [State.takes, hp, (h.idle hp).1, hw]
    · simp [State.takes, hp, hk, hb, hw]
    · simp [State.takes, hp, h.clock (Or.inl hp), hb, hw]

theorem takes_cases (ht : s.takes i = true) :
    (s.state = .idle ∧ i.iWr = true) ∨
      ((s.state = .ready ∨ s.state = .holding) ∧ s.oSck = true ∧ s.oBusy = false ∧
        i.iWr = true) := by
  cases hp : s.state <;> simp [State.takes, hp] at ht ⊢
  · exact ht.2
  · exact ⟨ht.1.1, ht.1.2, ht.2⟩
  · exact ⟨ht.1.1, ht.1.2, ht.2⟩

theorem shifting_zero (hs : u.state = .bits) (hl : u.oSck = false) (hb : u.oBusy = true)
    (hc : u.oCsN = false) (hm : u.oMod = modOf i.iSpd i.iDir) (hd : u.oDat = datOf i.iSpd i.iWord)
    (hv : u.rSpd = i.iSpd) (hw : u.rWord = shifted i.iSpd i.iWord)
    (hn : u.spiLen = lenBits i.iLen - stride i.iSpd) : Shifting i dat 0 u := by
  have hlt := two_le_clocks (i := i)
  have hle : i.step ≤ i.bits := by
    rw [← step_mul_clocks]
    exact Nat.le_mul_of_pos_right _ (by omega)
  constructor
  · rw [hs, if_pos (by omega)]
  · exact hl
  · exact hb
  · exact hc
  · exact hm
  · rw [hd, Nat.mul_zero, BitVec.shiftLeft_zero]
  · exact hv
  · rw [hw, ← shifted_shiftLeft, Nat.mul_zero, BitVec.shiftLeft_zero]
  · rw [hn, BitVec.toNat_sub_of_le (by rw [BitVec.le_def, stride_toNat, lenBits_toNat]; exact hle),
      stride_toNat, lenBits_toNat]
    omega
  · intro p hp
    omega

/-- The first bits of a request are on the line once the chip is selected. -/
theorem Sound.shifting (h : Sound s) (ht : s.takes i = true) :
    Shifting i dat 0 (s.asked i is s.lead) := by
  rcases takes_cases ht with ⟨hp, hw⟩ | ⟨hp, hk, hb, hw⟩
  · rw [State.lead, if_pos hp]
    change Shifting i dat 0 (((s.next i).next (is 0)).next (is 1))
    have h₀ := next_begin hp (h.idle hp).1 hw
    have h₁ : ((s.next i).next (is 0)).state = .start := by
      rw [h₀, next_start (by rfl)]
      simp [(h.idle hp).1]
    rw [next_start h₁, h₀, next_start (by rfl)]
    apply shifting_zero <;> simp [(h.idle hp).1]
  · have hidle : s.state ≠ .idle := by rcases hp with hp | hp <;> simp [hp]
    rw [State.lead, if_neg hidle]
    change Shifting i dat 0 (s.next i)
    rcases hp with hp | hp
    · rw [next_ready hp hk, follow_taken hb hw]
      apply shifting_zero <;> rfl
    · rw [next_holding hp hk, follow_taken hb hw]
      apply shifting_zero <;> rfl

/-- What the chip answers to each of the bits. -/
def State.answers (s : State) (is : ℕ → Input) (j : ℕ) : BitVec 4 := (is (s.lead + 2 * j + 1)).iDat

theorem Sound.shifts (h : Sound s) (is : ℕ → Input) (ht : s.takes i = true) (hj : j < i.clocks) :
    Shifting i (s.answers is) j (s.asked i is (s.lead + 2 * j)) := by
  induction j with
  | zero => exact h.shifting ht
  | succ j ih => exact (ih (by omega)).succ hj rfl

theorem last_eq : s.last i = s.lead + 2 * (i.clocks - 1) + 1 := by
  have := two_le_clocks (i := i)
  unfold State.last
  omega

theorem clock_cases (hk : k ≤ s.last i) :
    (s.state = .idle ∧ k < 2) ∨ ∃ j < i.clocks, k = s.lead + 2 * j ∨ k = s.lead + 2 * j + 1 := by
  rw [last_eq] at hk
  have hn := two_le_clocks (i := i)
  by_cases hp : s.state = .idle ∧ k < 2
  · exact Or.inl hp
  · right
    have hd : s.lead ≤ k := by
      unfold State.lead
      split_ifs with h
      · have h₂ : ¬ k < 2 := fun hlt => hp ⟨h, hlt⟩
        omega
      · omega
    exact ⟨(k - s.lead) / 2, by omega, by omega⟩

theorem Sound.leading (h : Sound s) (is : ℕ → Input) (ht : s.takes i = true)
    (hp : s.state = .idle) (hk : k < 2) :
    (s.asked i is k).state = .start ∧ (s.asked i is k).oCsN = false ∧
      (s.asked i is k).oSck = decide (k = 0) := by
  rcases takes_cases ht with ⟨-, hw⟩ | ⟨hp' | hp', -⟩
  · have h₀ := next_begin hp (h.idle hp).1 hw
    obtain rfl | rfl : k = 0 ∨ k = 1 := by omega
    · change (s.next i).state = _ ∧ (s.next i).oCsN = _ ∧ (s.next i).oSck = _
      rw [h₀]
      exact ⟨rfl, rfl, (h.idle hp).1⟩
    · change ((s.next i).next (is 0)).state = _ ∧ ((s.next i).next (is 0)).oCsN = _ ∧
        ((s.next i).next (is 0)).oSck = _
      rw [h₀, next_start (by rfl)]
      simp [(h.idle hp).1]
  · simp [hp] at hp'
  · simp [hp] at hp'

theorem Sound.rises (h : Sound s) (ht : s.takes i = true) (hj : j < i.clocks) :
    s.asked i is (s.lead + 2 * j + 1) = { s.asked i is (s.lead + 2 * j) with
      oSck := true
      oBusy := (s.asked i is (s.lead + 2 * j)).state != .ready ||
        !(is (s.lead + 2 * j)).iWr
      oValid := false } := (h.shifts is ht hj).next_eq

/-- The clock of the chip over the whole of a request. -/
theorem Sound.clock_iff (h : Sound s) (ht : s.takes i = true) (hk : k ≤ s.last i) :
    (s.asked i is k).oSck = true ↔
      (s.state = .idle ∧ k = 0) ∨ ∃ j < i.clocks, k = s.lead + 2 * j + 1 := by
  have hlead : s.state = .idle → s.lead = 2 := fun hp => by rw [State.lead, if_pos hp]
  rcases clock_cases hk with ⟨hp, h₂⟩ | ⟨j, hj, rfl | rfl⟩
  · rw [(h.leading is ht hp h₂).2.2, decide_eq_true_iff]
    constructor
    · exact fun h₀ => Or.inl ⟨hp, h₀⟩
    · rintro (⟨-, h₀⟩ | ⟨j, -, he⟩)
      · exact h₀
      · have := hlead hp
        omega
  · rw [(h.shifts is ht hj).low]
    refine ⟨fun hn => (by cases hn), ?_⟩
    rintro (⟨hp, h₀⟩ | ⟨j', -, he⟩)
    · have := hlead hp
      omega
    · omega
  · rw [h.rises ht hj]
    exact ⟨fun _ => Or.inr ⟨j, hj, rfl⟩, fun _ => rfl⟩

theorem Sound.at_last (h : Sound s) (is : ℕ → Input) (ht : s.takes i = true) :
    (s.asked i is (s.last i)).state = .ready ∧ (s.asked i is (s.last i)).oSck = true := by
  have hn := two_le_clocks (i := i)
  have hj : i.clocks - 1 < i.clocks := by omega
  have hs := (h.shifts is ht hj).state
  rw [if_neg (by omega)] at hs
  rw [last_eq, h.rises ht hj]
  exact ⟨hs, rfl⟩

/-- Before its last clock a request leaves no room for another. -/
theorem Sound.before_last (h : Sound s) (is : ℕ → Input) (ht : s.takes i = true)
    (hk : k < s.last i) :
    (s.asked i is k).oSck = false ∨ (s.asked i is k).state = .start ∨
      (s.asked i is k).state = .bits := by
  rcases clock_cases (Nat.le_of_lt hk) with ⟨hp, h₂⟩ | ⟨j, hj, rfl | rfl⟩
  · exact Or.inr (Or.inl (h.leading is ht hp h₂).1)
  · exact Or.inl (h.shifts is ht hj).low
  · rw [last_eq] at hk
    have hs := (h.shifts is ht hj).state
    rw [if_pos (by omega)] at hs
    rw [h.rises ht hj]
    exact Or.inr (Or.inr hs)

theorem takes_eq_false (h : s.oSck = false ∨ s.state = .start ∨ s.state = .bits) :
    s.takes i = false := by
  rcases h with hk | hp | hp
  · cases hp : s.state <;> simp [State.takes, hp, hk]
  · rw [State.takes, hp]
  · rw [State.takes, hp]

theorem Sound.selected_to_last (h : Sound s) (ht : s.takes i = true) (hk : k ≤ s.last i) :
    (s.asked i is k).oCsN = false := by
  rcases clock_cases hk with ⟨hp, h₂⟩ | ⟨j, hj, rfl | rfl⟩
  · exact (h.leading is ht hp h₂).2.1
  · exact (h.shifts is ht hj).selected
  · rw [h.rises ht hj]
    exact (h.shifts is ht hj).selected

/-- A word is shown in the clock after its last bits are read. -/
theorem Sound.valid_iff (h : Sound s) (ht : s.takes i = true) (hk : k ≤ s.last i + 1)
    (h₀ : 0 < k ∨ s.state ≠ .ready) :
    (s.asked i is k).oValid = true ↔ k = s.last i + 1 := by
  constructor
  · intro hv
    cases k with
    | zero =>
      rcases h₀ with h₀ | h₀
      · omega
      · exact absurd (h.valid_next hv).1 h₀
    | succ k =>
      obtain ⟨hr, hs, -⟩ := (h.asked k).valid_next hv
      by_contra hne
      rcases h.before_last is ht (k := k) (by omega) with hb | hb | hb
      · rw [hb] at hs
        cases hs
      · rw [hb] at hr
        cases hr
      · rw [hb] at hr
        cases hr
  · rintro rfl
    obtain ⟨hr, hs⟩ := h.at_last is ht
    rw [State.asked_succ, next_ready hr hs]

/-- Nothing is being sent. -/
def State.Rests (s : State) : Prop :=
  s.oSck = true ∧ (s.state = .ready ∨ s.state = .holding ∨ s.state = .stop ∨ s.state = .stopB ∨
    s.state = .idle)

theorem follow_of_not_taken (hs : s.state = .ready ∨ s.state = .holding) (hk : s.oSck = true)
    (ht : s.takes i = false) :
    (s.next i).oSck = true ∧ (s.next i).state = if i.iHold then .holding else .stop := by
  have hn : ¬ (s.oBusy = false ∧ i.iWr = true) := by
    rintro ⟨hb, hw⟩
    rcases hs with hs | hs <;> simp [State.takes, hs, hk, hb, hw] at ht
  rcases hs with hs | hs
  · rw [next_ready hs hk, follow_closed hn]
    exact ⟨rfl, rfl⟩
  · rw [next_holding hs hk, follow_closed hn]
    exact ⟨rfl, rfl⟩

theorem stays_idle (hs : s.state = .idle) (hk : s.oSck = true) (ht : s.takes i = false) :
    (s.next i).oSck = true ∧ (s.next i).state = .idle := by
  have hw : i.iWr = false := by simpa [State.takes, hs, hk] using ht
  rw [next_wait hs hk hw]
  exact ⟨hk, hs⟩

theorem State.Rests.next (h : s.Rests) (ht : s.takes i = false) : (s.next i).Rests := by
  obtain ⟨hk, hs⟩ := h
  have hf (hs : s.state = .ready ∨ s.state = .holding) : (s.next i).Rests := by
    obtain ⟨hk', hs'⟩ := follow_of_not_taken hs hk ht
    refine ⟨hk', ?_⟩
    cases hh : i.iHold <;> simp [hs', hh]
  rcases hs with hs | hs | hs | hs | hs
  · exact hf (Or.inl hs)
  · exact hf (Or.inr hs)
  · rw [next_stop hs hk]
    exact ⟨rfl, by simp⟩
  · rw [next_stopB hs hk]
    exact ⟨rfl, by simp⟩
  · obtain ⟨hk', hs'⟩ := stays_idle hs hk ht
    exact ⟨hk', by simp [hs']⟩

/-- Only what ends a word leads to its being shown. -/
theorem Sound.not_valid_next (h : Sound s) (hs : s.state ≠ .ready) : (s.next i).oValid = false := by
  cases hv : (s.next i).oValid with
  | false => rfl
  | true => exact absurd (h.valid_next hv).1 hs

theorem State.Rests.not_ready_next (h : s.Rests) (ht : s.takes i = false) :
    (s.next i).state ≠ .ready := by
  obtain ⟨hk, hs⟩ := h
  have hf (hs : s.state = .ready ∨ s.state = .holding) : (s.next i).state ≠ .ready := by
    rw [(follow_of_not_taken hs hk ht).2]
    cases i.iHold <;> simp
  rcases hs with hs | hs | hs | hs | hs
  · exact hf (Or.inl hs)
  · exact hf (Or.inr hs)
  · rw [next_stop hs hk]
    simp
  · rw [next_stopB hs hk]
    simp
  · rw [(stays_idle hs hk ht).2]
    simp

theorem Sound.rests_after (h : Sound s) (ht : s.takes i = true)
    (hn : ∀ k, s.last i ≤ k → k < m → (s.asked i is k).takes (is k) = false)
    (hm : s.last i ≤ m) :
    (s.asked i is m).Rests ∧ (s.last i < m → (s.asked i is m).state ≠ .ready) := by
  induction m, hm using Nat.le_induction with
  | base =>
    obtain ⟨hr, hs⟩ := h.at_last is ht
    exact ⟨⟨hs, Or.inl hr⟩, fun hlt => absurd hlt (Nat.lt_irrefl _)⟩
  | succ m hm ih =>
    have ih' := (ih (fun k h₁ h₂ => hn k h₁ (by omega))).1
    have hnt := hn m hm (by omega)
    exact ⟨ih'.next hnt, fun _ => ih'.not_ready_next hnt⟩

theorem Sound.held_after (h : Sound s) (ht : s.takes i = true)
    (hn : ∀ k, s.last i ≤ k → k < m → (s.asked i is k).takes (is k) = false ∧ (is k).iHold = true)
    (hm : s.last i ≤ m) :
    (s.asked i is m).oSck = true ∧
      ((s.asked i is m).state = .ready ∨ (s.asked i is m).state = .holding) := by
  induction m, hm using Nat.le_induction with
  | base =>
    obtain ⟨hr, hs⟩ := h.at_last is ht
    exact ⟨hs, Or.inl hr⟩
  | succ m hm ih =>
    obtain ⟨hk, hs⟩ := ih (fun k h₁ h₂ => hn k h₁ (by omega))
    obtain ⟨hnt, hh⟩ := hn m hm (by omega)
    obtain ⟨hk', hs'⟩ := follow_of_not_taken hs hk hnt
    rw [hh, if_pos rfl] at hs'
    exact ⟨hk', Or.inr hs'⟩

/-- Let go of, the chip is not selected any more after three clocks. -/
theorem released_after (is : ℕ → Input) (hk : u.oSck = true)
    (hs : u.state = .ready ∨ u.state = .holding) (ht : u.takes (is 0) = false)
    (hh : (is 0).iHold = false) :
    (u.after is 1).state = .stop ∧ (u.after is 2).state = .stopB ∧
      (u.after is 3).state = .idle := by
  obtain ⟨hk₁, hs₁⟩ := follow_of_not_taken hs hk ht
  rw [hh, if_neg (by simp)] at hs₁
  have h₂ := next_stop (i := is 1) hs₁ hk₁
  refine ⟨hs₁, ?_, ?_⟩
  · change ((u.next (is 0)).next (is 1)).state = _
    rw [h₂]
  · change (((u.next (is 0)).next (is 1)).next (is 2)).state = _
    rw [h₂, next_stopB (by rfl) rfl]

theorem after_add (u : State) (is : ℕ → Input) (m k : ℕ) :
    u.after is (m + k) = (u.after is m).after (fun n => is (m + n)) k := by
  induction k with
  | zero => rfl
  | succ k ih => rw [← Nat.add_assoc, State.after_succ, ih, State.after_succ]

theorem Sound.rises_iff (h : Sound s) (ht : s.takes i = true) (hk : k ≤ s.last i) :
    ((s.asked i is k).oSck = false ∧ (s.asked i is (k + 1)).oSck = true) ↔
      ∃ j < i.clocks, k = s.lead + 2 * j := by
  constructor
  · rintro ⟨hl, hr⟩
    rcases clock_cases hk with ⟨hp, h₂⟩ | ⟨j, hj, rfl | rfl⟩
    · have hs := (h.leading is ht hp h₂).2.2
      rw [hl] at hs
      have hk₁ : k + 1 = s.lead + 2 * 0 := by
        have h₀ : k ≠ 0 := by simpa using hs.symm
        rw [State.lead, if_pos hp]
        omega
      have hn := two_le_clocks (i := i)
      rw [hk₁, (h.shifts is ht (by omega)).low] at hr
      cases hr
    · exact ⟨j, hj, rfl⟩
    · rw [h.rises ht hj] at hl
      cases hl
  · rintro ⟨j, hj, rfl⟩
    refine ⟨(h.shifts is ht hj).low, ?_⟩
    rw [h.rises ht hj]

/-- What is on the line when the clock falls is still there when it rises. -/
theorem Sound.steady (h : Sound s) (ht : s.takes i = true) (hj : j < i.clocks) {e : ℕ}
    (he : e < 2) :
    (s.asked i is (s.lead + 2 * j + e)).oMod = modOf i.iSpd i.iDir ∧
      (s.asked i is (s.lead + 2 * j + e)).oDat = datOf i.iSpd (i.iWord <<< (i.step * j)) := by
  have hs := h.shifts is ht hj
  obtain rfl | rfl : e = 0 ∨ e = 1 := by omega
  · exact ⟨hs.mode, hs.sends⟩
  · rw [h.rises ht hj]
    exact ⟨hs.mode, hs.sends⟩

theorem Sound.word (h : Sound s) (ht : s.takes i = true) {p : ℕ} (hp : p < i.bits) :
    (s.asked i is (s.last i + 1)).oWord.getLsbD p =
      bitOf i.iSpd (is (s.lead + 2 * (i.clocks - 1 - p / i.step) + 1)).iDat (p % i.step) := by
  have hn := two_le_clocks (i := i)
  have hj : i.clocks - 1 < i.clocks := by omega
  obtain ⟨hr, hs⟩ := h.at_last is ht
  rw [State.asked_succ, next_ready hr hs]
  change ((s.asked i is (s.last i)).sampled (is (s.last i)).iDat).getLsbD p = _
  rw [last_eq, h.rises ht hj]
  refine (h.shifts is ht hj).sampled hj ?_
  rw [Nat.sub_add_cancel (by omega), step_mul_clocks]
  exact hp

theorem Sound.let_go (h : Sound s) (ht : s.takes i = true) {w : ℕ}
    (hn : ∀ k, s.last i ≤ k → k < w → (s.asked i is k).takes (is k) = false ∧ (is k).iHold = true)
    (hw : s.last i ≤ w) (hnt : (s.asked i is w).takes (is w) = false) (hh : (is w).iHold = false) :
    (s.asked i is (w + 1)).state = .stop ∧ (s.asked i is (w + 2)).state = .stopB ∧
      (s.asked i is (w + 3)).state = .idle := by
  obtain ⟨hk, hs⟩ := h.held_after ht hn hw
  have hr := released_after (fun n => is (w + n)) hk hs hnt hh
  simp only [State.asked] at hr ⊢
  simpa only [← after_add] using hr

/-- At rest the chip is not selected before a request is taken. -/
theorem Sound.idle_after (h : Sound s) {w : ℕ} (hw : (s.asked i is w).state = .idle) (hm : w ≤ m)
    (hn : ∀ k, w ≤ k → k < m → (s.asked i is k).takes (is k) = false) :
    (s.asked i is m).state = .idle := by
  induction m, hm using Nat.le_induction with
  | base => exact hw
  | succ m hm ih =>
    have hs := ih (fun k h₁ h₂ => hn k h₁ (by omega))
    exact (stays_idle hs ((h.asked m).idle hs).1 (hn m hm (by omega))).2

/-- What is taken is served. -/
theorem Sound.transfer (h : Sound s) (ht : s.takes i = true) : Transfer s i is := by
  have hn := two_le_clocks (i := i)
  constructor
  · by_cases hp : s.state = .idle
    · rw [(h.idle hp).2, hp]
      rfl
    · rw [h.selected hp]
      simp [hp]
  · intro k hk
    rcases Nat.lt_or_ge (s.last i) k with hlt | hle
    · obtain rfl : k = s.last i + 1 := by omega
      apply (h.asked _).selected
      obtain ⟨hr, hs⟩ := h.at_last is ht
      rw [State.asked_succ, next_ready hr hs]
      change ((s.asked i is (s.last i)).follow _).state ≠ _
      unfold State.follow
      split_ifs <;> simp
    · exact h.selected_to_last ht hle
  · exact fun k hk => h.rises_iff ht hk
  · exact fun j hj e he => (h.steady ht hj he).1
  · intro j hj e he r hr
    rw [(h.steady ht hj he).2, datOf_getLsbD hj hr]
  · exact fun k hk h₀ => h.valid_iff ht hk h₀
  · exact fun p hp => h.word ht hp
  · exact fun k hk => takes_eq_false (h.before_last is ht hk)
  · intro m hr hm
    obtain ⟨⟨hk, -⟩, -⟩ := h.rests_after ht hr (by omega)
    refine ⟨hk, fun hlt => ?_⟩
    obtain ⟨m, rfl⟩ : ∃ m', m = m' + 1 := ⟨m - 1, by omega⟩
    apply (h.asked m).not_valid_next
    exact (h.rests_after ht (fun k h₁ h₂ => hr k h₁ (by omega)) (by omega)).2 (by omega)
  · intro m hr hm
    obtain ⟨-, hs⟩ := h.held_after ht hr hm
    apply (h.asked m).selected
    rcases hs with hs | hs <;> simp [hs]
  · intro w hr hw hnt hh
    obtain ⟨h₁, h₂, h₃⟩ := h.let_go ht hr hw hnt hh
    constructor
    · intro k hlt hle
      obtain rfl | rfl : k = w + 1 ∨ k = w + 2 := by omega
      · exact ⟨(h.asked _).selected (by simp [h₁]), by rw [State.takes, h₁]⟩
      · exact ⟨(h.asked _).selected (by simp [h₂]), by rw [State.takes, h₂]⟩
    · intro m hm hnt'
      exact ((h.asked m).idle (h.idle_after h₃ hm hnt')).2

def system : Clocked.System State Input where
  init := PowerUp
  allowed _ _ := True
  next := State.next

theorem sound_of_reachable (h : system.Reachable s) : Sound s :=
  h.invariant (fun _ h₀ => h₀.sound) fun _ _ hu _ => hu.next

/-- In every clock of every run the driver takes a request when it is not busy, only then, and
sends and reads its bits as asked, unless one is presented while the driver is busy and yet
at rest. -/
theorem State.serves_request_iff (h : system.Reachable s) (i : Input) (is : ℕ → Input) :
    s.Serves i is ↔ ¬ (s.state = .idle ∧ s.oBusy = true ∧ i.iWr = true) := by
  have hs := sound_of_reachable h
  constructor
  · rintro ⟨hi, -⟩ ⟨hp, hb, hw⟩
    have ht : s.takes i = true := by simp [State.takes, hp, (hs.idle hp).1, hw]
    rw [(hi.1 ht).2] at hb
    cases hb
  · exact fun hn => ⟨hs.takes_iff hn, fun ht => hs.transfer ht⟩

/-- The registers that start undefined are zero here. -/
def powerUp : State where
  state := .idle
  oWord := 0
  oValid := false
  oBusy := false
  oSck := true
  oCsN := true
  oMod := 0
  oDat := 0xd
  rSpd := false
  rDir := false
  spiLen := 0
  rWord := 0
  rInput := 0

/-- A byte, read on four lines. -/
def byte : Input where
  iWr := true
  iHold := false
  iWord := 0xab000000
  iLen := 0
  iSpd := true
  iDir := true
  iDat := 0x5

theorem powerUp_reachable : system.Reachable powerUp :=
  Clocked.System.reachable_init (by constructor <;> rfl)

theorem serves_request_iff_first : powerUp.Serves byte fun _ => byte :=
  (State.serves_request_iff powerUp_reachable byte fun _ => byte).2 (by decide)

/-- The byte, and when it is done another. -/
def twice (k : ℕ) : Input := if k = 0 ∨ k = 9 then byte else { byte with iWr := false }

theorem reachable_after (is : ℕ → Input) (h : system.Reachable s) (k : ℕ) :
    system.Reachable (s.after is k) := by
  induction k with
  | zero => exact h
  | succ k ih => exact ih.step trivial

/-- In its first clock at rest the driver is still busy, and takes what it is given. -/
theorem taken_while_busy : ¬ ∀ s, system.Reachable s → ∀ i is, s.Serves i is := by
  intro h
  have ht := (h _ (reachable_after twice powerUp_reachable 9) (twice 9) twice).1
  have hb : (powerUp.after twice 9).oBusy = false := (ht.1 (by decide)).2
  revert hb
  decide

end S6Soc.LlQspi
