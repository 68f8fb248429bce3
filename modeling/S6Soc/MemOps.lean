import Mathlib.Tactic.Basic

/-! The memory unit `memops` as this CPU instantiates it: no local bus, no alignment
errors, nothing zeroed on idle. -/
namespace S6Soc.MemOps

structure State (aw : Nat) where
  rWbCycGbl : Bool
  lockGbl : Bool
  oWbStbGbl : Bool
  oWbWe : Bool
  oWbAddr : BitVec aw
  oWbData : BitVec 32
  oWbSel : BitVec 4
  rOp : BitVec 4
  oValid : Bool
  oErr : Bool
  oWreg : BitVec 5
  oResult : BitVec 32

structure Input where
  iReset : Bool
  iStb : Bool
  iLock : Bool
  iOp : BitVec 3
  iAddr : BitVec 32
  iData : BitVec 32
  iOreg : BitVec 5
  iWbAck : Bool
  iWbStall : Bool
  iWbErr : Bool
  iWbData : BitVec 32

variable {aw : Nat}

def State.oBusy (s : State aw) : Bool := s.rWbCycGbl

def State.oWbCycGbl (s : State aw) : Bool := s.rWbCycGbl || s.lockGbl

/-- `i_op[2:1]`: words, halfwords or bytes. -/
def size (op : BitVec 3) : BitVec 2 := op.extractLsb' 1 2

def writeData (op : BitVec 3) (data : BitVec 32) : BitVec 32 :=
  if size op = 2 then data.extractLsb' 0 16 ++ data.extractLsb' 0 16
  else if size op = 3 then
    data.extractLsb' 0 8 ++ data.extractLsb' 0 8 ++ data.extractLsb' 0 8 ++ data.extractLsb' 0 8
  else data

def writeSel (op : BitVec 3) (addr : BitVec 32) : BitVec 4 :=
  if size op = 2 then (if addr.getLsbD 1 then 0b0011 else 0b1100)
  else if size op = 3 then
    if addr.extractLsb' 0 2 = 0 then 0b1000
    else if addr.extractLsb' 0 2 = 1 then 0b0100
    else if addr.extractLsb' 0 2 = 2 then 0b0010
    else 0b0001
  else 0b1111

/-- The part of the word on the bus that `r_op` asks for. -/
def readData (rOp : BitVec 4) (data : BitVec 32) : BitVec 32 :=
  if rOp.extractLsb' 2 2 = 2 then
    (if rOp.getLsbD 1 then data.extractLsb' 0 16 else data.extractLsb' 16 16).setWidth 32
  else if rOp = 0b1100 then (data.extractLsb' 24 8).setWidth 32
  else if rOp = 0b1101 then (data.extractLsb' 16 8).setWidth 32
  else if rOp = 0b1110 then (data.extractLsb' 8 8).setWidth 32
  else if rOp = 0b1111 then (data.extractLsb' 0 8).setWidth 32
  else data

def step (s : State aw) (i : Input) : State aw where
  rWbCycGbl :=
    if i.iReset then false
    else if s.rWbCycGbl then !(i.iWbAck || i.iWbErr)
    else i.iStb
  lockGbl :=
    if i.iReset || (i.iWbErr && s.rWbCycGbl) then false
    else i.iLock && (s.rWbCycGbl || s.lockGbl)
  oWbStbGbl :=
    if i.iReset || (i.iWbErr && s.rWbCycGbl) then false
    else if s.oWbCycGbl then s.oWbStbGbl && i.iWbStall
    else i.iStb
  oWbWe := if i.iStb then i.iOp.getLsbD 0 else s.oWbWe
  oWbAddr := if i.iStb then i.iAddr.extractLsb' 2 aw else s.oWbAddr
  oWbData := if i.iStb then writeData i.iOp i.iData else s.oWbData
  oWbSel := if i.iStb then writeSel i.iOp i.iAddr else s.oWbSel
  rOp := if i.iStb then size i.iOp ++ i.iAddr.extractLsb' 0 2 else s.rOp
  oValid := !i.iReset && s.oWbCycGbl && i.iWbAck && !s.oWbWe
  oErr := !i.iReset && s.oWbCycGbl && i.iWbErr
  oWreg := if i.iStb then i.iOreg else s.oWreg
  oResult := readData s.rOp i.iWbData

def State.active (s : State aw) : Bool := s.rWbCycGbl || s.oValid || s.oErr

/-- The bus is never locked, and what the unit tells the CPU is told after the bus cycle. -/
structure State.Sound (s : State aw) : Prop where
  lock : s.lockGbl = false
  told : s.oValid ∨ s.oErr → !s.rWbCycGbl

variable {s : State aw} {i : Input}

theorem State.Sound.step (h : s.Sound) (hi : i.iLock = false) : (MemOps.step s i).Sound := by
  obtain ⟨hl, -⟩ := h
  constructor <;> simp only [MemOps.step, State.oWbCycGbl] <;> grind

theorem State.Sound.of_active_step (h : s.Sound) (ha : (MemOps.step s i).active) :
    i.iStb ∨ s.rWbCycGbl := by
  obtain ⟨hl, -⟩ := h
  simp only [State.active, MemOps.step, State.oWbCycGbl] at ha
  grind

end S6Soc.MemOps
