import Mathlib.Tactic.Basic

/-! The arithmetic unit `cpuops` with its three-clock multiplier (`IMPLEMENT_MPY = 4`):
registers, inputs and one clock. -/
namespace S6Soc.CpuOps

structure State where
  setOvfl : Bool
  keepSgnOnOvfl : Bool
  c : Bool
  preSign : Bool
  oC : BitVec 32
  oValid : Bool
  rBusy : Bool
  mpyhi : Bool
  mpypipe : BitVec 3
  rMpyAInput : BitVec 32
  rMpyBInput : BitVec 32
  rMpySigned : Bool
  ppF : BitVec 32
  ppOi : BitVec 33
  ppL : BitVec 32
  ppS : BitVec 33
  rMpyResult : BitVec 64

structure Input where
  iRst : Bool
  iCe : Bool
  iOp : BitVec 4
  iA : BitVec 32
  iB : BitVec 32

/-- The values of the `initial` statements; the other registers have none. -/
structure State.Initial (s : State) : Prop where
  oValid : s.oValid = false
  rBusy : s.rBusy = false
  mpypipe : s.mpypipe = 0

def State.oBusy (s : State) : Bool := s.rBusy

def State.mpybusy (s : State) : Bool := s.mpypipe.getLsbD 0 || s.mpypipe.getLsbD 1

def State.mpydone (s : State) : Bool := s.mpypipe.getLsbD 2

def isMultiply (op : BitVec 4) : Bool := op.extractLsb' 1 3 == 5 || op == 0xc

def lsrResult (a b : BitVec 32) : BitVec 33 :=
  if b.extractLsb' 6 26 ≠ 0 ∨ b.getLsbD 5 ∧ b.extractLsb' 0 5 ≠ 0 then 0
  else if b.getLsbD 5 then (BitVec.ofBool (a.getLsbD 31)).setWidth 33
  else (a ++ (0 : BitVec 1)) >>> (b.extractLsb' 0 5)

def lslResult (a b : BitVec 32) : BitVec 33 :=
  if b.extractLsb' 6 26 ≠ 0 ∨ b.getLsbD 5 ∧ b.extractLsb' 0 5 ≠ 0 then 0
  else if b.getLsbD 5 then BitVec.ofBool (a.getLsbD 0) ++ (0 : BitVec 32)
  else a.setWidth 33 <<< (b.extractLsb' 0 5)

def asrResult (a b : BitVec 32) : BitVec 33 :=
  if b.extractLsb' 5 27 ≠ 0 then BitVec.fill 33 (a.getLsbD 31)
  else (a ++ (0 : BitVec 1)).sshiftRight' (b.extractLsb' 0 5)

/-- Carry and result of the master case statement. -/
def result (op : BitVec 4) (a b : BitVec 32) (mpyResult : BitVec 64) : Bool × BitVec 32 :=
  if op = 0 then
    let r := a.setWidth 33 - b.setWidth 33
    (r.getLsbD 32, r.setWidth 32)
  else if op = 1 then (false, a &&& b)
  else if op = 2 then
    let r := a.setWidth 33 + b.setWidth 33
    (r.getLsbD 32, r.setWidth 32)
  else if op = 3 then (false, a ||| b)
  else if op = 4 then (false, a ^^^ b)
  else if op = 5 then ((lsrResult a b).getLsbD 0, (lsrResult a b).extractLsb' 1 32)
  else if op = 6 then ((lslResult a b).getLsbD 32, (lslResult a b).setWidth 32)
  else if op = 7 then ((asrResult a b).getLsbD 0, (asrResult a b).extractLsb' 1 32)
  else if op = 8 then (false, b.reverse)
  else if op = 9 then (false, a.extractLsb' 16 16 ++ b.extractLsb' 0 16)
  else if op = 10 ∨ op = 11 then (false, mpyResult.extractLsb' 32 32)
  else if op = 12 then (false, mpyResult.setWidth 32)
  else (false, b)

def signsDiffer (a b : BitVec 32) : Bool := a.getLsbD 31 != b.getLsbD 31

def mpyInput (signed : Bool) (a : BitVec 32) : BitVec 32 :=
  if signed then a ^^^ 0x80000000 else a

def State.high (x : BitVec 32) (w : Nat) : BitVec w := (x.extractLsb' 16 16).setWidth w

def State.low (x : BitVec 32) (w : Nat) : BitVec w := (x.extractLsb' 0 16).setWidth w

def State.v (s : State) : Bool := s.setOvfl && (s.preSign != s.oC.getLsbD 31)

def State.vx (s : State) : Bool := s.keepSgnOnOvfl && (s.preSign != s.oC.getLsbD 31)

def State.oF (s : State) : BitVec 4 :=
  BitVec.ofBool s.v ++ BitVec.ofBool (s.oC.getLsbD 31 ^^ s.vx) ++ BitVec.ofBool s.c ++
    BitVec.ofBool (s.oC == 0)

def step (s : State) (i : Input) : State where
  setOvfl :=
    if i.iCe then
      (i.iOp == 0 && signsDiffer i.iA i.iB) || (i.iOp == 2 && !signsDiffer i.iA i.iB) ||
        i.iOp == 6 || i.iOp == 5
    else s.setOvfl
  keepSgnOnOvfl :=
    if i.iCe then
      (i.iOp == 0 && signsDiffer i.iA i.iB) || (i.iOp == 2 && !signsDiffer i.iA i.iB)
    else s.keepSgnOnOvfl
  c := if i.iCe then (result i.iOp i.iA i.iB s.rMpyResult).1 else s.c
  preSign := if i.iCe then i.iA.getLsbD 31 else s.preSign
  oC :=
    if i.iCe then (result i.iOp i.iA i.iB s.rMpyResult).2
    else if s.mpyhi then s.rMpyResult.extractLsb' 32 32
    else s.rMpyResult.setWidth 32
  oValid := !i.iRst && ((i.iCe && !isMultiply i.iOp) || s.mpydone)
  rBusy := !i.iRst && ((i.iCe && isMultiply i.iOp) || s.mpybusy)
  mpyhi := if i.iCe && isMultiply i.iOp then i.iOp.getLsbD 1 else s.mpyhi
  mpypipe :=
    if i.iRst then 0
    else s.mpypipe.extractLsb' 0 2 ++ BitVec.ofBool (i.iCe && isMultiply i.iOp)
  rMpyAInput := mpyInput (i.iOp.getLsbD 0) i.iA
  rMpyBInput := mpyInput (i.iOp.getLsbD 0) i.iB
  rMpySigned := i.iOp.getLsbD 0
  ppF := State.high s.rMpyAInput 32 * State.high s.rMpyBInput 32
  ppOi := State.high s.rMpyAInput 33 * State.low s.rMpyBInput 33 +
    State.low s.rMpyAInput 33 * State.high s.rMpyBInput 33
  ppL := State.low s.rMpyAInput 32 * State.low s.rMpyBInput 32
  ppS :=
    if s.rMpySigned then
      0x080000000 - (s.rMpyAInput.setWidth 33 + s.rMpyBInput.setWidth 33)
    else 0
  rMpyResult :=
    ((s.ppL.extractLsb' 16 16).setWidth 48 + s.ppOi.setWidth 48 +
      (s.ppS ++ (0 : BitVec 15)) + (s.ppF ++ (0 : BitVec 16))) ++ s.ppL.extractLsb' 0 16

def State.active (s : State) : Bool := s.oValid || s.rBusy

/-- At most one multiplication is in the pipe, and none once a result is out. -/
structure State.Sound (s : State) : Prop where
  pipe : s.mpypipe = 0 ∨ s.mpypipe = 1 ∨ s.mpypipe = 2 ∨ s.mpypipe = 4
  busy : s.rBusy = (s.mpypipe != 0)
  valid : s.oValid → !s.rBusy

variable {s : State} {i : Input}

theorem State.Sound.step (h : s.Sound) (hi : i.iCe → !s.rBusy) : (CpuOps.step s i).Sound := by
  obtain ⟨hp, hb, -⟩ := h
  rcases hp with hp | hp | hp | hp <;> cases hr : i.iRst <;> cases hc : i.iCe <;>
    cases hm : isMultiply i.iOp <;>
    constructor <;> simp_all [CpuOps.step, State.mpydone, State.mpybusy]

theorem State.Sound.of_active_step (h : s.Sound) (ha : (CpuOps.step s i).active) :
    i.iCe ∨ s.rBusy := by
  obtain ⟨hp, hb, -⟩ := h
  cases hc : i.iCe with
  | true => exact Or.inl rfl
  | false =>
    rcases hp with hp | hp | hp | hp <;>
      simp_all [CpuOps.step, State.active, State.mpydone, State.mpybusy]

theorem not_active_reset (hr : i.iRst) : (CpuOps.step s i).active = false := by
  simp [State.active, CpuOps.step, hr]

end S6Soc.CpuOps
