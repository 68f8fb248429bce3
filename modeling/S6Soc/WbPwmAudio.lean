import S6Soc.BitReversal
import S6Soc.Clocked

/-! The audio output, `wbpwmaudio`: the sample is compared with a counter whose bits are in
reverse. -/
namespace S6Soc.WbPwmAudio
open Clocked BitReversal

variable {naux tb : ℕ}

/-- `DEFAULT_RELOAD` and `VARIABLE_RATE`. -/
structure Params (tb : ℕ) where
  defaultReload : BitVec tb
  variableRate : Bool

structure State (naux tb : ℕ) where
  rReloadValue : BitVec tb
  ztimer : Bool
  timer : BitVec tb
  sampleOut : BitVec 16
  nextSample : BitVec 16
  nextValid : Bool
  oAux : BitVec naux
  oInt : Bool
  pwmCounter : BitVec 16
  oPwm : Bool
  rWbData : BitVec 32
  oWbAck : Bool

structure Input where
  iWbCyc : Bool
  iWbStb : Bool
  iWbWe : Bool
  iWbAddr : Bool
  iWbData : BitVec 32

/-- `w_reload_value`. -/
def State.reloadValue (p : Params tb) (s : State naux tb) : BitVec tb :=
  if p.variableRate then s.rReloadValue else p.defaultReload

/-- `br_counter`. -/
def State.brCounter (s : State naux tb) : BitVec 16 := s.pwmCounter.reverse

/-- A write of a sample. -/
def Input.sampleWrite (p : Params tb) (i : Input) : Bool :=
  i.iWbStb && i.iWbWe && (!i.iWbAddr || !p.variableRate)

/-- The control bits, the interrupt and the sample as the bus reads them. -/
def State.status (s : State naux tb) : BitVec 32 :=
  (s.oAux.setWidth 12 ++ (0 : BitVec 3) ++ BitVec.ofBool s.oInt) ++ s.sampleOut

def State.step (p : Params tb) (s : State naux tb) (i : Input) : State naux tb where
  rReloadValue :=
    if i.iWbStb && i.iWbAddr && i.iWbWe then i.iWbData.extractLsb' 0 tb else s.rReloadValue
  ztimer := s.timer == BitVec.ofNat tb 1
  timer := if s.ztimer then s.reloadValue p else s.timer - BitVec.ofNat tb 1
  sampleOut := if s.ztimer then s.nextSample else s.sampleOut
  nextSample :=
    -- two's complement on the bus, an offset inside
    if i.sampleWrite p then BitVec.cons (!i.iWbData.getLsbD 15) (i.iWbData.extractLsb' 0 15)
    else s.nextSample
  nextValid := if i.sampleWrite p then true else if s.ztimer then false else s.nextValid
  oAux := if i.sampleWrite p && i.iWbData.getLsbD 16 then i.iWbData.extractLsb' 20 naux else s.oAux
  oInt := !s.nextValid
  pwmCounter := s.pwmCounter + 1
  oPwm := decide (s.brCounter ≤ s.sampleOut)
  rWbData := if i.iWbAddr then (s.reloadValue p).setWidth 32 else s.status
  oWbAck := i.iWbStb

def State.oWbData (p : Params tb) (s : State naux tb) : BitVec 32 :=
  if p.variableRate then s.rWbData else s.status

/-- Where `sample_out` and `o_aux` start from is not said. -/
def wbpwmaudio (p : Params tb) : System (State naux tb) Input where
  init s := s.rReloadValue = p.defaultReload ∧ s.ztimer = false ∧ s.timer = p.defaultReload ∧
    s.nextSample = 0x8000 ∧ s.nextValid ∧ s.oInt = false ∧ s.pwmCounter = 0 ∧ s.oWbAck = false
  allowed _ _ := True
  next := State.step p

/-- After `n` clocks of the inputs `is`. -/
def State.run (p : Params tb) (s : State naux tb) (is : ℕ → Input) : ℕ → State naux tb
  | 0 => s
  | n + 1 => (s.run p is n).step p (is n)

/-- Of the clocks in which the counter goes through the next `n` values, those the output
is high for: it follows by one clock. -/
def State.highClocks (p : Params tb) (s : State naux tb) (is : ℕ → Input) (n : ℕ) : ℕ :=
  ((Finset.range n).filter fun i => (s.run p is (i + 1)).oPwm).card

variable {p : Params tb} {s : State naux tb} {is : ℕ → Input} {k i : ℕ} {v : BitVec 16}

theorem run_pwmCounter (n : ℕ) : (s.run p is n).pwmCounter = s.pwmCounter + BitVec.ofNat 16 n := by
  induction n with
  | zero => simp [State.run]
  | succ n ih =>
    change (s.run p is n).pwmCounter + 1 = _
    rw [ih, BitVec.add_assoc]
    exact congrArg _ (BitVec.ofNat_add n 1).symm

/-- The output while the sample is held. -/
theorem oPwm_run (h : (s.run p is i).sampleOut = v) :
    (s.run p is (i + 1)).oPwm ↔ rev 16 (s.pwmCounter + BitVec.ofNat 16 i).toNat ≤ v.toNat := by
  change decide ((s.run p is i).brCounter ≤ (s.run p is i).sampleOut) = true ↔ _
  rw [decide_eq_true_iff, h, BitVec.le_def, State.brCounter, toNat_reverse, run_pwmCounter]

/-- An aligned window does not wrap. -/
theorem toNat_window (hk : k ≤ 16) (ha : 2 ^ k ∣ s.pwmCounter.toNat) (hi : i < 2 ^ k) :
    (s.pwmCounter + BitVec.ofNat 16 i).toNat = i + 2 ^ k * (s.pwmCounter.toNat / 2 ^ k) := by
  have hlt : s.pwmCounter.toNat / 2 ^ k < 2 ^ (16 - k) := by
    rw [Nat.div_lt_iff_lt_mul (Nat.two_pow_pos k), ← pow_add, Nat.sub_add_cancel hk]
    exact s.pwmCounter.isLt
  have hpow : 2 ^ k * 2 ^ (16 - k) = 2 ^ 16 := by rw [← pow_add, Nat.add_sub_cancel' hk]
  have hsum : i + 2 ^ k * (s.pwmCounter.toNat / 2 ^ k) < 2 ^ 16 := by
    calc i + 2 ^ k * (s.pwmCounter.toNat / 2 ^ k)
        < 2 ^ k * (s.pwmCounter.toNat / 2 ^ k + 1) := by rw [Nat.mul_succ]; omega
      _ ≤ 2 ^ k * 2 ^ (16 - k) := Nat.mul_le_mul_left _ hlt
      _ = 2 ^ 16 := hpow
  rw [BitVec.toNat_add, BitVec.toNat_ofNat, Nat.add_mod_mod, Nat.add_comm,
    ← Nat.mul_div_cancel' ha, Nat.mul_div_cancel_left _ (Nat.two_pow_pos k), Nat.mod_eq_of_lt hsum]

/-- How many clocks of an aligned window the output is high for: the thresholds the sample
reaches, `2 ^ (16 - k)` apart. -/
theorem highClocks_eq (hk : k ≤ 16) (ha : 2 ^ k ∣ s.pwmCounter.toNat)
    (hv : ∀ i < 2 ^ k, (s.run p is i).sampleOut = v) :
    s.highClocks p is (2 ^ k) =
      (v.toNat + 2 ^ (16 - k) - rev (16 - k) (s.pwmCounter.toNat / 2 ^ k)) / 2 ^ (16 - k) := by
  have hsplit : k + (16 - k) = 16 := Nat.add_sub_cancel' hk
  rw [← card_window k (16 - k) _ (by rw [hsplit]; exact v.isLt), hsplit]
  refine congrArg Finset.card (Finset.filter_congr fun i hi => ?_)
  have hlt := Finset.mem_range.1 hi
  rw [oPwm_run (hv i hlt), toNat_window hk ha hlt]

/-- Over any aligned window the output is high as often as the sample says, but for one. -/
theorem highClocks_near (p : Params tb) (s : State naux tb) (is : ℕ → Input) (v : BitVec 16)
    (hk : k ≤ 16) (ha : 2 ^ k ∣ s.pwmCounter.toNat)
    (hv : ∀ i < 2 ^ k, (s.run p is i).sampleOut = v) :
    |(s.highClocks p is (2 ^ k) : ℚ) - v.toNat * 2 ^ k / 2 ^ 16| ≤ 1 := by
  obtain ⟨hle, hge⟩ := thresholds_bounds (s := v.toNat)
    (rev_lt (16 - k) (s.pwmCounter.toNat / 2 ^ k))
  rw [← highClocks_eq hk ha hv] at hle hge
  have hpow : (2 : ℚ) ^ 16 = 2 ^ k * 2 ^ (16 - k) := by rw [← pow_add, Nat.add_sub_cancel' hk]
  have hpos : (0 : ℚ) < 2 ^ (16 - k) := by positivity
  have hscale : (v.toNat : ℚ) * 2 ^ k / 2 ^ 16 = v.toNat / 2 ^ (16 - k) := by
    rw [hpow, Nat.cast_comm, mul_div_mul_left _ _ (by positivity)]
  have hle' : (s.highClocks p is (2 ^ k) : ℚ) * 2 ^ (16 - k) ≤ v.toNat + 2 ^ (16 - k) := by
    exact_mod_cast hle
  have hge' : (v.toNat : ℚ) ≤ s.highClocks p is (2 ^ k) * 2 ^ (16 - k) + 2 ^ (16 - k) := by
    exact_mod_cast hge
  rw [hscale, abs_le]
  constructor
  · rw [neg_le_sub_iff_le_add, div_le_iff₀ hpos, add_mul, one_mul]
    exact hge'
  · rw [sub_le_iff_le_add, ← sub_le_iff_le_add', le_div_iff₀ hpos, sub_mul, one_mul]
    linarith

/-- At power up, with a sample at a quarter of the scale. -/
def powerUp : State 2 14 where
  rReloadValue := 10000
  ztimer := false
  timer := 10000
  sampleOut := 0x4000
  nextSample := 0x8000
  nextValid := true
  oAux := 0
  oInt := false
  pwmCounter := 0
  oPwm := false
  rWbData := 0
  oWbAck := false

def busParams : Params 14 := ⟨10000, false⟩

example : (wbpwmaudio busParams).init powerUp := by
  simp [wbpwmaudio, powerUp, busParams]

def idle : Input := ⟨false, false, false, false, 0⟩

theorem highClocks_near_powerUp :
    |(powerUp.highClocks busParams (fun _ => idle) (2 ^ 2) : ℚ) -
      (0x4000 : BitVec 16).toNat * 2 ^ 2 / 2 ^ 16| ≤ 1 :=
  highClocks_near busParams powerUp (fun _ => idle) 0x4000 (by decide) (by decide) (by decide)

end S6Soc.WbPwmAudio
