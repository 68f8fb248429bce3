import S6Soc.BusMaster
import S6Soc.ZipCpu

/-! The processor in its wrapper `zipbones`, whose debug port `busmaster` ties off, with
the registers of `busmaster` that reset it: the button's and the watchdog's. -/
namespace S6Soc.ZipBones
open Clocked

/-- `ziptimer` with 31 bits and without reload. -/
structure Timer where
  rRunning : Bool
  rValue : BitVec 31
  oInt : Bool

structure TimerInput where
  iRst : Bool
  wbWrite : Bool
  iWbData : BitVec 32

def Timer.next (t : Timer) (i : TimerInput) : Timer where
  rRunning :=
    if i.iRst then false
    else if i.wbWrite then i.iWbData.setWidth 31 != 0
    else if t.oInt then false
    else t.rRunning
  rValue :=
    if i.wbWrite then i.iWbData.setWidth 31
    else if t.rRunning && !t.oInt then t.rValue - 1
    else t.rValue
  oInt := !i.iRst && t.rRunning && t.rValue == 1

/-- `cmd_step`, `cmd_addr` and the debug writes stay at zero. -/
structure State where
  cpu : ZipCpu.State
  cmdReset : Bool
  cmdHalt : Bool
  cmdClearPfCache : Bool
  xButton : Bool
  rButton : Bool
  btnReset : Bool
  watchdog : Timer

/-- The button, the interrupt controller and the slaves on the bus. -/
structure Input where
  iBtn : Bool
  iExtInt : Bool
  iWbAck : Bool
  iWbStall : Bool
  iWbErr : Bool
  iWbData : BitVec 32

def State.wbCyc (s : State) : Bool := s.cpu.wbCyc

def State.wbStb (s : State) : Bool :=
  if s.cpu.rAOwner then s.cpu.mem.oWbStbGbl else s.cpu.pf.oWbStb

def State.wbWe (s : State) : Bool := s.cpu.rAOwner && s.cpu.mem.oWbWe

def State.wbAddr (s : State) : BitVec 23 :=
  if s.cpu.rAOwner then s.cpu.mem.oWbAddr else s.cpu.pf.oWbAddr

def State.watchdogInput (s : State) : TimerInput where
  iRst := s.btnReset
  wbWrite := s.wbCyc &&
    (s.wbStb && BusMaster.ioSel s.wbAddr && s.wbAddr.setWidth 4 == 3) && s.wbWe
  iWbData := s.cpu.mem.oWbData

/-- `cpu_reset` of `zipbones`: its own command register, not the reset input. -/
def State.cpuReset (s : State) : Bool := s.cmdReset

def State.cpuInput (s : State) (i : Input) : ZipCpu.Input where
  iRst := s.cpuReset
  iInterrupt := i.iExtInt
  iHalt := s.cmdHalt
  iClearPfCache := s.cmdClearPfCache
  iWbAck := i.iWbAck
  iWbStall := i.iWbStall
  iWbErr := i.iWbErr
  iWbData := i.iWbData

/-- `o_ext_int`. -/
def State.zipCpuInt (s : State) (i : Input) : Bool := s.cmdHalt && !i.iWbStall

def State.next (s : State) (i : Input) : State where
  cpu := ZipCpu.step s.cpu (s.cpuInput i)
  cmdReset := false
  cmdHalt :=
    if s.btnReset || s.cmdReset then false
    else if s.cpu.oBreak then true
    else s.cmdHalt
  cmdClearPfCache := false
  xButton := i.iBtn
  rButton := s.xButton
  btnReset := (s.rButton && s.zipCpuInt i) || s.watchdog.oInt
  watchdog := s.watchdog.next s.watchdogInput

/-- The values of the `initial` statements. -/
structure State.Initial (s : State) : Prop where
  cpu : s.cpu.Initial
  cmdReset : s.cmdReset = true
  cmdHalt : s.cmdHalt = false
  cmdClearPfCache : s.cmdClearPfCache = true
  xButton : s.xButton = false
  rButton : s.rButton = false
  btnReset : s.btnReset = false
  rRunning : s.watchdog.rRunning = false
  rValue : s.watchdog.rValue = 0
  oInt : s.watchdog.oInt = false

/-- Every input is allowed in every clock. -/
def system : System State Input where
  init := State.Initial
  allowed _ _ := True
  next := State.next

end S6Soc.ZipBones
