import S6Soc.SerialLine

/-! The UART transmitter: what it puts on the line for a byte. -/
namespace S6Soc.TxUartLite
open SerialLine

def TXU_BIT_ZERO : BitVec 4 := 0x0

def TXU_STOP : BitVec 4 := 0x8

def TXU_IDLE : BitVec 4 := 0xf

structure State where
  baudCounter : BitVec 24
  state : BitVec 4
  lclData : BitVec 8
  rBusy : Bool
  zeroBaudCounter : Bool
  oUartTx : Bool
  deriving DecidableEq

structure Input where
  iWr : Bool
  iData : BitVec 8
  deriving DecidableEq

def initial : State := ⟨5, TXU_IDLE, 0xff, true, false, true⟩

def State.oBusy (s : State) : Bool := s.rBusy

/-- `(i_wr)&&(!r_busy)`: the byte is accepted. -/
def State.accepts (s : State) (i : Input) : Bool := i.iWr && !s.rBusy

def step (clocksPerBaud : BitVec 24) (s : State) (i : Input) : State where
  rBusy :=
    if !s.zeroBaudCounter then true
    else if s.state = TXU_IDLE then s.accepts i
    else true
  state :=
    if !s.zeroBaudCounter then s.state
    else if s.state = TXU_IDLE then if s.accepts i then TXU_BIT_ZERO else s.state
    else if s.state ≤ TXU_STOP then s.state + 1
    else TXU_IDLE
  lclData :=
    if s.accepts i then i.iData
    else if s.zeroBaudCounter then shiftIn true s.lclData
    else s.lclData
  oUartTx :=
    if s.accepts i then false
    else if s.zeroBaudCounter then s.lclData.getLsbD 0
    else s.oUartTx
  zeroBaudCounter :=
    if s.state = TXU_IDLE then !s.accepts i else s.baudCounter == 1
  baudCounter :=
    if s.state = TXU_IDLE then if s.accepts i then clocksPerBaud - 1 else 0
    else if !s.zeroBaudCounter then s.baudCounter - 1
    else clocksPerBaud - 1

/-- The line is at rest. -/
structure Idle (s : State) : Prop where
  state : s.state = TXU_IDLE
  lclData : s.lclData = BitVec.allOnes 8
  oUartTx : s.oUartTx = true
  ready : s.rBusy = false → s.zeroBaudCounter = true

/-- The `i`-th symbol of `b` has been on the line for `j` clocks. -/
structure Sends (clocksPerBaud : BitVec 24) (b : BitVec 8) (i j : ℕ) (s : State) : Prop where
  symbol_le : i ≤ 9
  clock_lt : j < clocksPerBaud.toNat
  state : s.state = BitVec.ofNat 4 i
  baudCounter : s.baudCounter.toNat + j + 1 = clocksPerBaud.toNat
  zeroBaudCounter : s.zeroBaudCounter = decide (j + 1 = clocksPerBaud.toNat)
  rBusy : s.rBusy = true
  lclData : Offers b i s.lclData
  oUartTx : s.oUartTx = symbol b i

variable {clocksPerBaud : BitVec 24} {b : BitVec 8} {i j : ℕ} {s : State} {x : Input}

theorem idle_initial : Idle initial := ⟨rfl, rfl, rfl, nofun⟩

theorem Sends.not_accepts (h : Sends clocksPerBaud b i j s) : s.accepts x = false := by
  rw [State.accepts, h.rBusy, Bool.not_true, Bool.and_false]

theorem Sends.ne_idle (h : Sends clocksPerBaud b i j s) : s.state ≠ TXU_IDLE := by
  rw [h.state]
  exact symbol_ne_idle h.symbol_le

/-- Nothing is accepted: the line stays at rest. -/
theorem Idle.stays (h : Idle s) (ha : s.accepts x = false) : Idle (step clocksPerBaud s x) where
  state := by simp [step, h.state, ha]
  lclData := by
    simp only [step, ha, h.lclData, Bool.false_eq_true, if_false]
    split_ifs
    · decide
    · rfl
  oUartTx := by
    simp only [step, ha, h.lclData, h.oUartTx, Bool.false_eq_true, if_false]
    split_ifs
    · decide
    · rfl
  ready _ := by simp [step, h.state, ha]

/-- A byte is accepted: its start bit is on the line. -/
theorem Idle.accepts (h : Idle s) (ha : s.accepts x) (hc : 2 ≤ clocksPerBaud.toNat) :
    Sends clocksPerBaud x.iData 0 0 (step clocksPerBaud s x) := by
  have hb : s.rBusy = false := by
    have := (Bool.and_eq_true_iff.mp ha).2
    simpa using this
  have hz := h.ready hb
  refine ⟨Nat.zero_le 9, by omega, ?_, ?_, ?_, ?_, ?_, ?_⟩
  · simp [step, hz, h.state, ha, TXU_BIT_ZERO]
  · simp only [step, h.state, ha, if_true]
    bv_omega
  · simp [step, h.state, ha]
    omega
  · simp [step, hz, h.state, ha]
  · simp only [step, ha, if_true]
    exact offers_word
  · simp [step, ha]

/-- The symbol stays on the line until the baud counter has run down. -/
theorem Sends.stays (h : Sends clocksPerBaud b i j s) (hj : j + 1 < clocksPerBaud.toNat) :
    Sends clocksPerBaud b i (j + 1) (step clocksPerBaud s x) := by
  have hz : s.zeroBaudCounter = false := by
    rw [h.zeroBaudCounter]
    exact decide_eq_false hj.ne
  have ha : s.accepts x = false := h.not_accepts
  have hb := h.baudCounter
  refine ⟨h.symbol_le, hj, ?_, ?_, ?_, ?_, ?_, ?_⟩
  · simp only [step, hz, Bool.not_false, if_true]
    exact h.state
  · simp only [step, h.ne_idle, hz, Bool.not_false, if_true, if_false]
    bv_omega
  · simp only [step, h.ne_idle, if_false]
    exact counter_eq_one hb
  · simp [step, hz]
  · simp only [step, ha, hz, Bool.false_eq_true, if_false]
    exact h.lclData
  · simp only [step, ha, hz, Bool.false_eq_true, if_false]
    exact h.oUartTx

/-- The next symbol follows. -/
theorem Sends.next (h : Sends clocksPerBaud b i j s) (hj : j + 1 = clocksPerBaud.toNat) (hi : i < 9)
    (hc : 2 ≤ clocksPerBaud.toNat) :
    Sends clocksPerBaud b (i + 1) 0 (step clocksPerBaud s x) := by
  have hz : s.zeroBaudCounter = true := by
    rw [h.zeroBaudCounter]
    exact decide_eq_true hj
  have ha : s.accepts x = false := h.not_accepts
  have hb := h.baudCounter
  have hle : s.state ≤ TXU_STOP := by
    rw [h.state, TXU_STOP, BitVec.le_def, BitVec.toNat_ofNat, Nat.mod_eq_of_lt (by omega)]
    change i ≤ 8
    omega
  refine ⟨hi, by omega, ?_, ?_, ?_, ?_, ?_, ?_⟩
  · have hst : (step clocksPerBaud s x).state = s.state + 1 := by
      simp only [step, hz, Bool.not_true, Bool.false_eq_true, if_false, h.ne_idle, if_pos hle]
    rw [hst, h.state, BitVec.ofNat_add]
    rfl
  · simp only [step, h.ne_idle, hz, Bool.not_true, Bool.false_eq_true, if_false]
    bv_omega
  · simp only [step, h.ne_idle, if_false]
    rw [counter_eq_one hb, decide_eq_decide]
    omega
  · simp [step, hz, h.ne_idle]
  · simp only [step, ha, hz, Bool.false_eq_true, if_false, if_true]
    exact h.lclData.shift
  · simp only [step, ha, hz, Bool.false_eq_true, if_false, if_true]
    exact h.lclData.first

/-- After the stop bit the line stays at rest, and the transmitter is busy for another clock. -/
theorem Sends.ends (h : Sends clocksPerBaud b 9 j s) (hj : j + 1 = clocksPerBaud.toNat) :
    Idle (step clocksPerBaud s x) ∧ (step clocksPerBaud s x).rBusy = true := by
  have hz : s.zeroBaudCounter = true := by
    rw [h.zeroBaudCounter]
    exact decide_eq_true hj
  have ha : s.accepts x = false := h.not_accepts
  have hgt : ¬ s.state ≤ TXU_STOP := by
    rw [h.state]
    decide
  have hb : (step clocksPerBaud s x).rBusy = true := by simp [step, hz, h.ne_idle]
  refine ⟨⟨?_, ?_, ?_, fun hf => absurd hb (by rw [hf]; exact Bool.false_ne_true)⟩, hb⟩
  · simp only [step, hz, Bool.not_true, Bool.false_eq_true, if_false, h.ne_idle, if_neg hgt]
  · simp only [step, ha, hz, Bool.false_eq_true, if_false, if_true]
    exact h.lclData.shift.ones (by omega)
  · simp only [step, ha, hz, Bool.false_eq_true, if_false, if_true]
    exact h.lclData.first.trans (symbol_stop (by omega))

end S6Soc.TxUartLite
