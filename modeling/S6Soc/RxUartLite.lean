import S6Soc.SerialLine

/-! The UART receiver: what it makes of a line that carries a byte. It samples each symbol half a
bit time after its beginning, and sees the line three clocks late. -/
namespace S6Soc.RxUartLite
open SerialLine

def RXU_BIT_ZERO : BitVec 4 := 0x0

def RXU_STOP : BitVec 4 := 0x8

def RXU_IDLE : BitVec 4 := 0xf

structure State where
  qUart : Bool
  qqUart : Bool
  ckUart : Bool
  chgCounter : BitVec 24
  halfBaudTime : Bool
  state : BitVec 4
  dataReg : BitVec 8
  oWr : Bool
  oData : BitVec 8
  baudCounter : BitVec 24
  zeroBaudCounter : Bool
  deriving DecidableEq

/-- `data_reg`, `o_wr` and `baud_counter` have no initial values. -/
structure Initial (s : State) : Prop where
  qUart : s.qUart = false
  qqUart : s.qqUart = false
  ckUart : s.ckUart = false
  chgCounter : s.chgCounter = 0
  halfBaudTime : s.halfBaudTime = false
  state : s.state = RXU_IDLE
  oData : s.oData = 0
  zeroBaudCounter : s.zeroBaudCounter = false

def halfBaud (clocksPerBaud : BitVec 24) : BitVec 24 := clocksPerBaud >>> 1 - 1

def step (clocksPerBaud : BitVec 24) (s : State) (iUartRx : Bool) : State where
  qUart := iUartRx
  qqUart := s.qUart
  ckUart := s.qqUart
  chgCounter := if s.qqUart ≠ s.ckUart then 0 else s.chgCounter + 1
  halfBaudTime := !s.ckUart && decide (halfBaud clocksPerBaud ≤ s.chgCounter)
  state :=
    if s.state = RXU_IDLE then
      if !s.ckUart && s.halfBaudTime then RXU_BIT_ZERO else RXU_IDLE
    else if s.zeroBaudCounter then if s.state < RXU_STOP then s.state + 1 else RXU_IDLE
    else s.state
  dataReg := if s.zeroBaudCounter then shiftIn s.ckUart s.dataReg else s.dataReg
  oWr := s.zeroBaudCounter && s.state == RXU_STOP
  oData := if s.zeroBaudCounter && s.state == RXU_STOP then s.dataReg else s.oData
  baudCounter :=
    if s.zeroBaudCounter ∨ s.state = RXU_IDLE then clocksPerBaud - 1 else s.baudCounter - 1
  zeroBaudCounter := if s.state = RXU_IDLE then false else s.baudCounter == 1

/-- Waiting for a start bit: a line that it sees low has not been so for long. -/
structure Waits (s : State) : Prop where
  state : s.state = RXU_IDLE
  qUart : s.qUart = true
  qqUart : s.qqUart = true
  ckUart : s.ckUart = false → s.halfBaudTime = false

/-- The clocks from the acceptance of a byte to the strobe. -/
def latency (c : ℕ) : ℕ := 9 * c + c / 2 + 5

/-- The line as it is seen `a` clocks after the byte was accepted. -/
structure Sees (c : ℕ) (b : BitVec 8) (a : ℕ) (s : State) : Prop where
  qUart : s.qUart = wave c b (a - 1)
  qqUart : s.qqUart = wave c b (a - 2)
  ckUart : s.ckUart = wave c b (a - 3)

/-- The receiver `a` clocks after the byte was accepted: it has yet to see the start bit, measures
it, takes one symbol after the other, or is done. -/
inductive Receives (c : ℕ) (b : BitVec 8) : ℕ → State → Prop
  | early {a s} (before : a ≤ 3) (state : s.state = RXU_IDLE) (oWr : s.oWr = false) :
    Receives c b a s
  | measures {n s} (low : n ≤ c / 2) (state : s.state = RXU_IDLE)
    (chgCounter : s.chgCounter.toNat = n) (halfBaudTime : s.halfBaudTime = decide (n = c / 2))
    (oWr : s.oWr = false) : Receives c b (n + 4) s
  | takes {i j s} (symbol_le : i ≤ 8) (clock_lt : j < c) (state : s.state = BitVec.ofNat 4 i)
    (baudCounter : s.baudCounter.toNat + j + 1 = c)
    (zeroBaudCounter : s.zeroBaudCounter = decide (j + 1 = c)) (dataReg : Collects b i s.dataReg)
    (oWr : s.oWr = false) : Receives c b (i * c + j + c / 2 + 5) s
  | done {a s} (after : latency c ≤ a) (state : s.state = RXU_IDLE)
    (oWr : s.oWr = decide (a = latency c)) (oData : a = latency c → s.oData = b) :
    Receives c b a s

variable {clocksPerBaud : BitVec 24} {b : BitVec 8} {a c i j n : ℕ} {s : State} {x : Bool}

theorem toNat_halfBaud (h2 : 2 ≤ clocksPerBaud.toNat) :
    (halfBaud clocksPerBaud).toNat = clocksPerBaud.toNat / 2 - 1 := by
  have hs : (clocksPerBaud >>> 1).toNat = clocksPerBaud.toNat / 2 := by
    rw [BitVec.toNat_ushiftRight, Nat.shiftRight_eq_div_pow, pow_one]
  rw [halfBaud, BitVec.toNat_sub_of_le, hs]
  · rfl
  · rw [BitVec.le_def, hs]
    change 1 ≤ _
    omega

theorem idle_step (clocksPerBaud : BitVec 24) (x : Bool) (h : s.state = RXU_IDLE) :
    (step clocksPerBaud s x).oWr = false ∧
    (step clocksPerBaud s x).state =
      if !s.ckUart && s.halfBaudTime then RXU_BIT_ZERO else RXU_IDLE := by
  constructor
  · simp only [step, h]
    exact Bool.and_false _
  · simp [step, h]

/-- The line stays at rest. -/
theorem Waits.stays (h : Waits s) (clocksPerBaud : BitVec 24) :
    Waits (step clocksPerBaud s true) ∧
    (step clocksPerBaud s true).oWr = false := by
  obtain ⟨hw, hs⟩ := idle_step clocksPerBaud true h.state
  refine ⟨⟨?_, rfl, h.qUart, fun hck => ?_⟩, hw⟩
  · rw [hs]
    cases hck : s.ckUart with
    | true => rfl
    | false => rw [h.ckUart hck]; rfl
  · have hck : s.qqUart = false := hck
    rw [h.qqUart] at hck
    cases hck

/-- A byte is accepted, while the line is still at rest. -/
theorem Waits.starts (h : Waits s) (clocksPerBaud : BitVec 24) :
    Sees c b 1 (step clocksPerBaud s true) ∧ Receives c b 1 (step clocksPerBaud s true) := by
  obtain ⟨hw, ho⟩ := h.stays clocksPerBaud
  exact ⟨⟨rfl, h.qUart, h.qqUart⟩, .early (by omega) hw.state ho⟩

theorem Sees.step (h : Sees c b a s) :
    Sees c b (a + 1) (step clocksPerBaud s (wave c b a)) where
  qUart := rfl
  qqUart := h.qUart.trans (by congr 1)
  ckUart := h.qqUart.trans (by congr 1)

theorem takes_ne_idle (hi : i ≤ 8) (hs : s.state = BitVec.ofNat 4 i) : s.state ≠ RXU_IDLE := by
  rw [hs]
  exact symbol_ne_idle (by omega)

/-- Once it sees the start bit, it begins to measure it. -/
theorem early_step (ha : 0 < a) (hs : Sees clocksPerBaud.toNat b a s) (hc : 2 ≤ clocksPerBaud.toNat)
    (before : a ≤ 3) (hst : s.state = RXU_IDLE) :
    Receives clocksPerBaud.toNat b (a + 1) (step clocksPerBaud s x) := by
  have hck : s.ckUart = true := by rw [hs.ckUart, Nat.sub_eq_zero_of_le before, wave_zero]
  obtain ⟨ho, hst'⟩ := idle_step clocksPerBaud x hst
  have hidle : (step clocksPerBaud s x).state = RXU_IDLE := by
    rw [hst', hck]
    rfl
  rcases Nat.lt_or_ge a 3 with hlt | hge
  · exact .early hlt hidle ho
  · obtain rfl : a = 3 := le_antisymm before hge
    have hqq : s.qqUart = false := by
      rw [hs.qqUart]
      exact wave_start (by omega) (by omega)
    refine .measures (n := 0) (Nat.zero_le _) hidle ?_ ?_ ho
    · simp [RxUartLite.step, hqq, hck]
    · simp only [RxUartLite.step, hck, Bool.not_true, Bool.false_and]
      exact (decide_eq_false (by omega)).symm

/-- It measures half a bit time of the start bit, and begins to take symbols. -/
theorem measures_step (hs : Sees clocksPerBaud.toNat b (n + 4) s) (hc : 4 ≤ clocksPerBaud.toNat)
    (low : n ≤ clocksPerBaud.toNat / 2) (hst : s.state = RXU_IDLE) (hchg : s.chgCounter.toNat = n)
    (hhalf : s.halfBaudTime = decide (n = clocksPerBaud.toNat / 2)) :
    Receives clocksPerBaud.toNat b (n + 4 + 1) (step clocksPerBaud s x) := by
  have hlt := clocksPerBaud.isLt
  have hck : s.ckUart = false := by
    rw [hs.ckUart]
    exact wave_start (by omega) (by omega)
  have hqq : s.qqUart = false := by
    rw [hs.qqUart]
    exact wave_start (by omega) (by omega)
  obtain ⟨ho, hst'⟩ := idle_step clocksPerBaud x hst
  rw [hck, hhalf] at hst'
  rcases Nat.lt_or_ge n (clocksPerBaud.toNat / 2) with hn | hn
  · rw [decide_eq_false hn.ne] at hst'
    refine .measures (n := n + 1) hn hst' ?_ ?_ ho
    · simp only [RxUartLite.step, hqq, hck, ne_eq, not_true_eq_false, if_false]
      rw [BitVec.toNat_add, hchg]
      change (n + 1) % 2 ^ 24 = n + 1
      exact Nat.mod_eq_of_lt (by omega)
    · simp only [RxUartLite.step, hck, Bool.not_false, Bool.true_and]
      rw [decide_eq_decide, BitVec.le_def, toNat_halfBaud (by omega), hchg]
      omega
  · obtain rfl : n = clocksPerBaud.toNat / 2 := le_antisymm low hn
    rw [decide_eq_true rfl] at hst'
    have h := Receives.takes (c := clocksPerBaud.toNat) (b := b) (i := 0) (j := 0)
      (s := RxUartLite.step clocksPerBaud s x) (by omega) (by omega) hst' ?_ ?_ collects_none ho
    · rwa [show 0 * clocksPerBaud.toNat + 0 + clocksPerBaud.toNat / 2 + 5 =
        clocksPerBaud.toNat / 2 + 4 + 1 by omega] at h
    · simp only [RxUartLite.step, hst, or_true, if_true]
      bv_omega
    · simp only [RxUartLite.step, hst, if_true]
      exact (decide_eq_false (by omega)).symm

/-- It waits for the middle of the next symbol. -/
theorem takes_stays (hi : i ≤ 8) (hj : j + 1 < clocksPerBaud.toNat)
    (hst : s.state = BitVec.ofNat 4 i) (hb : s.baudCounter.toNat + j + 1 = clocksPerBaud.toNat)
    (hz : s.zeroBaudCounter = decide (j + 1 = clocksPerBaud.toNat)) (hd : Collects b i s.dataReg) :
    Receives clocksPerBaud.toNat b
      (i * clocksPerBaud.toNat + j + clocksPerBaud.toNat / 2 + 5 + 1)
      (step clocksPerBaud s x) := by
  rw [decide_eq_false hj.ne] at hz
  have hne := takes_ne_idle hi hst
  have h := Receives.takes (b := b) (s := RxUartLite.step clocksPerBaud s x) hi hj ?_ ?_ ?_ ?_ ?_
  · rwa [show i * clocksPerBaud.toNat + (j + 1) + clocksPerBaud.toNat / 2 + 5 =
      i * clocksPerBaud.toNat + j + clocksPerBaud.toNat / 2 + 5 + 1 by omega] at h
  · simp only [RxUartLite.step, hne, hz, Bool.false_eq_true, if_false]
    exact hst
  · simp only [RxUartLite.step, hne, hz, Bool.false_eq_true, or_false, if_false]
    bv_omega
  · simp only [RxUartLite.step, hne, if_false]
    exact counter_eq_one hb
  · simp only [RxUartLite.step, hz, Bool.false_eq_true, if_false]
    exact hd
  · simp only [RxUartLite.step, hz, Bool.false_and]

/-- In the middle of a symbol it takes it, and strobes in the middle of the stop bit. -/
theorem takes_next (hs : Sees clocksPerBaud.toNat b
      (i * clocksPerBaud.toNat + j + clocksPerBaud.toNat / 2 + 5) s) (hc : 4 ≤ clocksPerBaud.toNat)
    (hi : i ≤ 8) (hj : j + 1 = clocksPerBaud.toNat) (hst : s.state = BitVec.ofNat 4 i)
    (hb : s.baudCounter.toNat + j + 1 = clocksPerBaud.toNat)
    (hz : s.zeroBaudCounter = decide (j + 1 = clocksPerBaud.toNat)) (hd : Collects b i s.dataReg) :
    Receives clocksPerBaud.toNat b
      (i * clocksPerBaud.toNat + j + clocksPerBaud.toNat / 2 + 5 + 1)
      (step clocksPerBaud s x) := by
  rw [decide_eq_true hj] at hz
  have hne := takes_ne_idle hi hst
  have hck : s.ckUart = symbol b (i + 1) := by
    rw [hs.ckUart]
    have h1 : (i + 1) * clocksPerBaud.toNat = i * clocksPerBaud.toNat + clocksPerBaud.toNat :=
      Nat.succ_mul _ _
    have h2 : (i + 1 + 1) * clocksPerBaud.toNat =
        i * clocksPerBaud.toNat + clocksPerBaud.toNat + clocksPerBaud.toNat := by
      rw [Nat.succ_mul, h1]
    exact wave_eq (by omega) (by omega)
  rcases Nat.lt_or_ge i 8 with hlt | hge
  · have hlt' : s.state < RXU_STOP := by
      rw [hst, RXU_STOP, BitVec.lt_def, BitVec.toNat_ofNat, Nat.mod_eq_of_lt (by omega)]
      exact hlt
    have h := Receives.takes (c := clocksPerBaud.toNat) (b := b) (i := i + 1) (j := 0)
      (s := RxUartLite.step clocksPerBaud s x) hlt (by omega) ?_ ?_ ?_ ?_ ?_
    · rwa [show (i + 1) * clocksPerBaud.toNat + 0 + clocksPerBaud.toNat / 2 + 5 =
        i * clocksPerBaud.toNat + j + clocksPerBaud.toNat / 2 + 5 + 1 by
          rw [Nat.succ_mul]; omega] at h
    · have hst' : (RxUartLite.step clocksPerBaud s x).state = s.state + 1 := by
        simp only [RxUartLite.step, hne, hz, if_pos hlt', if_true, if_false]
      rw [hst', hst, BitVec.ofNat_add]
      rfl
    · simp only [RxUartLite.step, hz, true_or, if_true]
      bv_omega
    · simp only [RxUartLite.step, hne, if_false]
      rw [counter_eq_one hb, decide_eq_decide]
      omega
    · simp only [RxUartLite.step, hz, if_true]
      exact hd.shift (by omega) (hck.trans (symbol_succ (by omega)))
    · simp only [RxUartLite.step, hz, Bool.true_and]
      rw [beq_eq_false_iff_ne]
      exact BitVec.ne_of_lt hlt'
  · obtain rfl : i = 8 := le_antisymm hi hge
    have hstop : s.state = RXU_STOP := hst
    have ha : 8 * clocksPerBaud.toNat + j + clocksPerBaud.toNat / 2 + 5 + 1 =
        latency clocksPerBaud.toNat := by
      rw [latency]
      omega
    refine .done ha.ge ?_ ?_ fun _ => ?_
    · simp only [RxUartLite.step, hne, hz, if_true, if_false]
      rw [if_neg (by rw [hstop]; decide)]
    · simp only [RxUartLite.step, hz, hstop]
      exact (decide_eq_true ha).symm
    · simp only [RxUartLite.step, hz, hstop]
      exact hd.full

/-- After the strobe the line is seen at rest, up to the end of the stop bit and beyond. -/
theorem done_step (hs : Sees clocksPerBaud.toNat b a s) (hc : 2 ≤ clocksPerBaud.toNat)
    (hst : s.state = RXU_IDLE) (after : latency clocksPerBaud.toNat ≤ a) :
    Receives clocksPerBaud.toNat b (a + 1) (step clocksPerBaud s x) := by
  rw [latency] at after
  have hck : s.ckUart = true := by
    rw [hs.ckUart]
    exact wave_stop (by omega) (by omega)
  obtain ⟨ho, hst'⟩ := idle_step clocksPerBaud x hst
  refine .done (by rw [latency]; omega) ?_ ?_ fun h => ?_
  · rw [hst', hck]
    rfl
  · rw [ho, latency]
    exact (decide_eq_false (by omega)).symm
  · rw [latency] at h
    omega

/-- A clock of the receiver, while the line carries a byte. -/
theorem Receives.step (h : Receives clocksPerBaud.toNat b a s)
    (hs : Sees clocksPerBaud.toNat b a s) (ha : 0 < a) (hc : 4 ≤ clocksPerBaud.toNat) :
    Receives clocksPerBaud.toNat b (a + 1) (step clocksPerBaud s x) := by
  cases h with
  | early before hst _ => exact early_step ha hs (by omega) before hst
  | measures low hst hchg hhalf _ => exact measures_step hs hc low hst hchg hhalf
  | @takes i j _ hi hj hst hb hz hd _ =>
    rcases Nat.lt_or_ge (j + 1) clocksPerBaud.toNat with hlt | hge
    · exact takes_stays hi hlt hst hb hz hd
    · exact takes_next hs hc hi (le_antisymm hj hge) hst hb hz hd
  | done after hst _ _ => exact done_step hs (by omega) hst after

/-- It strobes when it is done, and only then. -/
theorem Receives.strobes (h : Receives c b a s) :
    (s.oWr = true ↔ a = latency c) ∧ (a = latency c → s.oData = b) := by
  cases h with
  | early before _ ho =>
    rw [ho, latency]
    exact ⟨⟨fun h => (by cases h), fun h => by omega⟩, fun h => by omega⟩
  | measures low _ _ _ ho =>
    rw [ho, latency]
    exact ⟨⟨fun h => (by cases h), fun h => by omega⟩, fun h => by omega⟩
  | @takes i j _ hi hj _ _ _ _ ho =>
    have hle : i * c ≤ 8 * c := Nat.mul_le_mul_right c hi
    rw [ho, latency]
    exact ⟨⟨fun h => (by cases h), fun h => by omega⟩, fun h => by omega⟩
  | done _ _ ho hd =>
    rw [ho]
    exact ⟨decide_eq_true_iff, hd⟩

/-- A receiver that is done waits for the next start bit. -/
theorem Receives.waits (h : Receives c b a s) (hs : Sees c b a s) (hc : 0 < c)
    (ha : latency c ≤ a) : Waits s := by
  have hl : 9 * c + c / 2 + 5 ≤ a := ha
  have hidle : s.state = RXU_IDLE := by
    cases h with
    | early _ hst _ => exact hst
    | measures _ hst _ _ _ => exact hst
    | @takes i j _ hi hj _ _ _ _ _ =>
      have hle : i * c ≤ 8 * c := Nat.mul_le_mul_right c hi
      omega
    | done _ hst _ _ => exact hst
  refine ⟨hidle, ?_, ?_, fun hck => ?_⟩
  · rw [hs.qUart]
    exact wave_stop hc (by omega)
  · rw [hs.qqUart]
    exact wave_stop hc (by omega)
  · rw [hs.ckUart, wave_stop hc (by omega)] at hck
    cases hck

end S6Soc.RxUartLite
