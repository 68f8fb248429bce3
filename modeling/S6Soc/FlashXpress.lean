import Mathlib.Tactic.Basic

/-! The read-only flash controller `qflashxpress`: start-up, request handling and
the shift pipes that drive the chip. -/
namespace S6Soc.FlashXpress

structure State where
  maintenance : Bool
  mCounter : BitVec 15
  mState : BitVec 2
  mMod : BitVec 2
  mCsN : Bool
  mClk : BitVec 2
  mData : BitVec 32
  busyPipe : BitVec 22
  dataPipe : BitVec 32
  preAck : Bool
  rPipeReq : Bool
  lastAddr : BitVec 22
  clkPipe : BitVec 44
  modPipe : BitVec 10
  oWbStall : Bool
  ackPipe : Bool
  oWbAck : Bool
  oWbData : BitVec 32

structure Input where
  iReset : Bool
  iWbCyc : Bool
  iWbStb : Bool
  iWbAddr : BitVec 22
  iQspiDat : BitVec 4

/-- The registers that have an `initial` statement hold it; the others are free. -/
structure PowerUp (s : State) : Prop where
  maintenance : s.maintenance = true
  mCounter : s.mCounter = 0
  mState : s.mState = 0
  busyPipe : s.busyPipe = 0x3fffff
  dataPipe : s.dataPipe = 0
  preAck : s.preAck = false
  rPipeReq : s.rPipeReq = false
  clkPipe : s.clkPipe = BitVec.allOnes 44
  oWbStall : s.oWbStall = true
  ackPipe : s.ackPipe = false
  oWbAck : s.oWbAck = false

def State.oQspiSck (s : State) : BitVec 2 :=
  if s.maintenance then s.mClk else s.clkPipe.extractLsb' 42 2

def State.oQspiCsN (s : State) : Bool :=
  if s.maintenance then s.mCsN else s.clkPipe.extractLsb' 42 2 == 3

def State.oQspiMod (s : State) : BitVec 2 :=
  if s.maintenance then s.mMod else if s.modPipe.getLsbD 9 then 3 else 2

def State.oQspiDat (s : State) : BitVec 4 :=
  if s.maintenance then s.mData.extractLsb' 28 4 else s.dataPipe.extractLsb' 28 4

/-- A request is taken in this clock. -/
def request (s : State) (i : Input) : Bool := i.iWbStb && !s.oWbStall

def pipeCondition (s : State) (i : Input) : Bool :=
  s.preAck && i.iWbStb && (s.lastAddr + 1 == i.iWbAddr)

/-- The pipes of a command with an address phase: 22 clocks of chip select. -/
def clkStart : BitVec 44 := 0x155_5555_5555

/-- The pipes of a continuation: eight more clocks. -/
def clkMore : BitVec 44 := 0x555_5fff_ffff

def command (addr : BitVec 22) : BitVec 32 := addr ++ 0#2 ++ 0xa0#8

/-- The start-up machine: registers `maintenance`, `m_counter`, `m_state`, `m_mod`,
`m_cs_n`, `m_clk` and `m_data`. -/
def startup (s : State) : State :=
  let s' := { s with
    mCounter := if s.maintenance then s.mCounter + 1 else s.mCounter
    mMod := 0 }
  if s.mState = 0 then
    { s' with
      maintenance := true
      mState := if s.mCounter = 0x7fff then 1 else s.mState
      mCsN := true
      mClk := 3 }
  else if s.mState = 1 then
    { s' with
      maintenance := true
      mState := if s.mCounter = 138 then 2 else s.mState
      mCsN := false
      mClk := if s.mCounter.getLsbD 2 then 0 else 3
      mData := 0x0ff0f0ff }
  else if s.mState = 2 then
    { s' with
      maintenance := true
      mState := if s.mCounter = 138 + 48 then 3 else s.mState
      mCsN := true
      mClk := 3
      mData := 0xfff0f0ff }
  else
    { s' with
      maintenance := if s.mCounter = 138 + 48 + 10 then false else s.maintenance
      mCsN := false
      mClk := if s.mClk = 3 then 2 else 1
      mData := if s.mClk = 1 then s.mData <<< 4 else s.mData }

/-- The data and access registers. -/
def access (s : State) (i : Input) : State :=
  let fresh := (request s i && !s.rPipeReq) || s.maintenance
  { s with
    dataPipe :=
      if request s i || s.maintenance then command i.iWbAddr
      else if s.oQspiSck = 1 then s.dataPipe <<< 4
      else s.dataPipe
    lastAddr := if request s i then i.iWbAddr else s.lastAddr
    rPipeReq := pipeCondition s i
    preAck :=
      if s.maintenance || !i.iWbCyc then false
      else if request s i then true
      else if s.oWbAck && !s.rPipeReq then false
      else s.preAck
    clkPipe :=
      if fresh then clkStart
      else if request s i then clkMore
      else s.clkPipe <<< 2 ||| 3
    modPipe := if fresh then 0 else s.modPipe <<< 1 ||| 1
    busyPipe :=
      if fresh then 0x3fffff
      else if request s i then 0x3fc000
      else s.busyPipe <<< 1
    oWbStall :=
      request s i || s.busyPipe.getLsbD 19 || (s.busyPipe.getLsbD 20 && !s.rPipeReq)
    ackPipe := s.preAck && s.busyPipe.getLsbD 20 && !s.busyPipe.getLsbD 19
    oWbAck := s.preAck && s.ackPipe
    oWbData := s.oWbData <<< 4 ||| i.iQspiDat.setWidth 32 }

def step (s : State) (i : Input) : State :=
  let a := access s i
  if i.iReset then { a with maintenance := true, mCounter := 0, mState := 0 }
  else
    let m := startup s
    { a with
      maintenance := m.maintenance
      mCounter := m.mCounter
      mState := m.mState
      mMod := m.mMod
      mCsN := m.mCsN
      mClk := m.mClk
      mData := m.mData }

variable (s : State) (i : Input)

@[simp] theorem step_dataPipe : (step s i).dataPipe = (access s i).dataPipe := by
  unfold step; split <;> rfl

@[simp] theorem step_preAck : (step s i).preAck = (access s i).preAck := by
  unfold step; split <;> rfl

@[simp] theorem step_rPipeReq : (step s i).rPipeReq = (access s i).rPipeReq := by
  unfold step; split <;> rfl

@[simp] theorem step_lastAddr : (step s i).lastAddr = (access s i).lastAddr := by
  unfold step; split <;> rfl

@[simp] theorem step_clkPipe : (step s i).clkPipe = (access s i).clkPipe := by
  unfold step; split <;> rfl

@[simp] theorem step_modPipe : (step s i).modPipe = (access s i).modPipe := by
  unfold step; split <;> rfl

@[simp] theorem step_busyPipe : (step s i).busyPipe = (access s i).busyPipe := by
  unfold step; split <;> rfl

@[simp] theorem step_oWbStall : (step s i).oWbStall = (access s i).oWbStall := by
  unfold step; split <;> rfl

@[simp] theorem step_ackPipe : (step s i).ackPipe = (access s i).ackPipe := by
  unfold step; split <;> rfl

@[simp] theorem step_oWbAck : (step s i).oWbAck = (access s i).oWbAck := by
  unfold step; split <;> rfl

@[simp] theorem step_oWbData : (step s i).oWbData = (access s i).oWbData := by
  unfold step; split <;> rfl

variable {s : State} {i : Input}

/-- Start-up is left for good. -/
theorem step_running (hm : s.maintenance = false) (hs : s.mState = 3) (hr : i.iReset = false) :
    (step s i).maintenance = false ∧ (step s i).mState = 3 := by
  simp [step, startup, hm, hs, hr]

theorem mState_last : ∀ m : BitVec 2, m ≠ 0 → m ≠ 1 → m ≠ 2 → m = 3 := by decide

/-- Start-up ends in its last state only. -/
theorem maintenance_ends (hr : i.iReset = false)
    (h : (step s i).maintenance = false) : (step s i).mState = 3 := by
  by_cases h3 : s.mState = 3
  · simp [step, startup, hr, h3]
  · have hn : (step s i).maintenance = true := by
      by_cases h0 : s.mState = 0
      · simp [step, startup, hr, h0]
      by_cases h1 : s.mState = 1
      · simp [step, startup, hr, h1]
      by_cases h2 : s.mState = 2
      · simp [step, startup, hr, h2]
      exact absurd (mState_last s.mState h0 h1 h2) h3
    rw [hn] at h
    cases h

end S6Soc.FlashXpress
