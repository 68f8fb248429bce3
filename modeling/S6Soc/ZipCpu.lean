import S6Soc.CpuOps
import S6Soc.DblFetch
import S6Soc.Div
import S6Soc.IDecode
import S6Soc.MemOps

/-! The processor `zipcpu` as the SoC builds it: not pipelined, two-word prefetch,
compressed instructions, and a debug port that never writes a register. Program counters
are word addresses. -/
namespace S6Soc.ZipCpu
open IDecode (cpuCcReg cpuPcReg)

/-- `RESET_ADDRESS[24:2]`. -/
def resetBusAddress : BitVec 23 := 0x480000

def cpuInfo : BitVec 9 := 0b111000001

structure State where
  pf : DblFetch.State 23
  dcd : IDecode.State
  alu : CpuOps.State
  div : Div.State
  mem : MemOps.State 23
  rAOwner : Bool
  regset : BitVec 5 → BitVec 32
  flags : BitVec 4
  iflags : BitVec 4
  breakEn : Bool
  stepping : Bool
  sleep : Bool
  gie : Bool
  trap : Bool
  ubreak : Bool
  illErrI : Bool
  illErrU : Bool
  ibusErrFlag : Bool
  ubusErrFlag : Bool
  idivErrFlag : Bool
  udivErrFlag : Bool
  ihaltPhase : Bool
  uhaltPhase : Bool
  upc : BitVec 23
  ipc : BitVec 23
  pfPc : BitVec 23
  clearIcache : Bool
  newPc : Bool
  opAv : BitVec 32
  opBv : BitVec 32
  rOpF : BitVec 7
  opValid : Bool
  opValidAlu : Bool
  opValidMem : Bool
  opValidDiv : Bool
  opBreak : Bool
  opIllegal : Bool
  opWF : Bool
  opWR : Bool
  opOpn : BitVec 4
  opR : BitVec 5
  opGie : Bool
  opPc : BitVec 23
  opPhase : Bool
  aluWR : Bool
  aluWF : Bool
  aluPhase : Bool
  aluReg : BitVec 5
  aluIllegal : Bool
  rAluPcValid : Bool
  memPcValid : Bool

structure Input where
  iRst : Bool
  iInterrupt : Bool
  iHalt : Bool
  iClearPfCache : Bool
  iWbAck : Bool
  iWbStall : Bool
  iWbErr : Bool
  iWbData : BitVec 32

/-- The values of the `initial` statements; the other registers have none. -/
structure State.Initial (s : State) : Prop where
  pf : ∃ cache, s.pf = DblFetch.initial 23 cache
  dcd : s.dcd.Initial
  alu : s.alu.Initial
  div : s.div.Initial
  memCyc : s.mem.rWbCycGbl = false
  memLock : s.mem.lockGbl = false
  memStb : s.mem.oWbStbGbl = false
  memValid : s.mem.oValid = false
  rAOwner : s.rAOwner = true
  breakEn : s.breakEn = false
  sleep : s.sleep = false
  gie : s.gie = false
  trap : s.trap = false
  ubreak : s.ubreak = false
  illErrI : s.illErrI = false
  illErrU : s.illErrU = false
  ibusErrFlag : s.ibusErrFlag = false
  ubusErrFlag : s.ubusErrFlag = false
  idivErrFlag : s.idivErrFlag = false
  udivErrFlag : s.udivErrFlag = false
  ihaltPhase : s.ihaltPhase = false
  uhaltPhase : s.uhaltPhase = false
  clearIcache : s.clearIcache = true
  newPc : s.newPc = true
  opValid : s.opValid = false
  opValidAlu : s.opValidAlu = false
  opValidMem : s.opValidMem = false
  opValidDiv : s.opValidDiv = false
  opBreak : s.opBreak = false
  opIllegal : s.opIllegal = false
  opGie : s.opGie = false
  opPhase : s.opPhase = false
  aluWR : s.aluWR = false
  aluWF : s.aluWF = false
  aluPhase : s.aluPhase = false
  aluIllegal : s.aluIllegal = false
  rAluPcValid : s.rAluPcValid = false
  memPcValid : s.memPcValid = false

def State.aluGie (s : State) : Bool := s.opGie

def State.memRdbusy (s : State) : Bool := s.mem.oBusy && !s.mem.oWbWe

def State.wrRegCe (s : State) : Bool :=
  s.mem.oValid || (!s.newPc && !s.aluIllegal && ((s.aluWR && s.alu.oValid) || s.div.oValid))

def State.wrFlagsCe (s : State) : Bool :=
  (s.aluWF || s.div.oValid) && !s.newPc && !s.aluIllegal

def State.wrRegId (s : State) : BitVec 5 :=
  if s.aluWR || s.div.oValid then s.aluReg else s.mem.oWreg

def State.wrWriteCc (s : State) : Bool := s.wrRegId.setWidth 4 == cpuCcReg

def State.wrWriteScc (s : State) : Bool := s.wrRegId == BitVec.ofBool false ++ cpuCcReg

def State.wrWriteUcc (s : State) : Bool := s.wrRegId == BitVec.ofBool true ++ cpuCcReg

def State.wrWritePc (s : State) : Bool := s.wrRegId.setWidth 4 == cpuPcReg

def State.wrGpregVl (s : State) : BitVec 32 :=
  if s.mem.oValid then s.mem.oResult
  else if s.div.oValid then s.div.oQuotient
  else s.alu.oC

def State.wrSpregVl (s : State) : BitVec 32 :=
  if s.mem.oValid then s.mem.oResult else s.alu.oC

/-- What a write to a CC register says about `CPU_GIE_BIT`. -/
def State.wrGie (s : State) : Bool := s.wrSpregVl.getLsbD 5

def State.wrSleep (s : State) : Bool := s.wrSpregVl.getLsbD 4

/-- The flags an instruction that just finished leaves. -/
def State.newFlags (s : State) : BitVec 4 :=
  if s.div.oValid then s.div.oFlags else s.alu.oF

def State.wUflags (s : State) : BitVec 15 :=
  BitVec.ofBool false ++ BitVec.ofBool s.uhaltPhase ++ BitVec.ofBool false ++
    BitVec.ofBool s.udivErrFlag ++ BitVec.ofBool s.ubusErrFlag ++ BitVec.ofBool s.trap ++
    BitVec.ofBool s.illErrU ++ BitVec.ofBool s.ubreak ++ BitVec.ofBool s.stepping ++
    BitVec.ofBool true ++ BitVec.ofBool s.sleep ++
    (if s.wrFlagsCe && s.aluGie then s.alu.oF else s.flags)

def State.wIflags (s : State) : BitVec 15 :=
  BitVec.ofBool false ++ BitVec.ofBool s.ihaltPhase ++ BitVec.ofBool false ++
    BitVec.ofBool s.idivErrFlag ++ BitVec.ofBool s.ibusErrFlag ++ BitVec.ofBool s.trap ++
    BitVec.ofBool s.illErrI ++ BitVec.ofBool s.breakEn ++ BitVec.ofBool false ++
    BitVec.ofBool false ++ BitVec.ofBool s.sleep ++
    (if s.wrFlagsCe && !s.aluGie then s.alu.oF else s.iflags)

def State.aluPcValid (s : State) : Bool :=
  s.rAluPcValid && (!s.alu.oBusy && !s.div.oBusy)

def State.oBreak (s : State) : Bool :=
  ((s.breakEn || !s.opGie) && s.opBreak && !s.newPc) || (!s.aluGie && s.mem.oErr) ||
    (!s.aluGie && s.div.oErr) || (!s.aluGie && s.aluIllegal && !s.newPc)

def State.masterCe (s : State) (i : Input) : Bool :=
  (!i.iHalt || s.aluPhase) && !s.oBreak && !s.sleep

def State.opStall (s : State) : Bool :=
  s.alu.oBusy || s.div.oBusy || s.wrRegCe || s.mem.oBusy || s.opValid || s.wrFlagsCe

def State.dcdStalled (s : State) : Bool := s.dcd.rValid && s.opStall

def State.dcdCe (s : State) : Bool := !s.dcd.rValid || !s.dcdStalled

def State.opCe (s : State) : Bool := (s.dcd.rValid || s.dcd.oIllegal) && !s.opStall

def State.opChangeDataCe (s : State) : Bool := !s.opStall

def State.aluStall (s : State) (i : Input) : Bool :=
  s.opValidAlu && (!s.masterCe i || s.opBreak)

def State.aluCe (s : State) (i : Input) : Bool :=
  s.masterCe i && s.opValidAlu && !s.aluStall i && !s.newPc

def State.memStalled (s : State) (i : Input) : Bool := s.opValidMem && !s.masterCe i

def State.memCe (s : State) (i : Input) : Bool :=
  s.masterCe i && s.opValidMem && !s.memStalled i && !s.newPc

def State.adfCeUnconditional (s : State) (i : Input) : Bool :=
  s.masterCe i && !s.newPc && s.opValid && !s.opValidMem && !s.memRdbusy &&
    (!s.opValidAlu || !s.aluStall i) && !s.opBreak && !s.div.oBusy

def State.pfStalled (s : State) : Bool := s.dcdStalled || s.dcd.rPhase

/-- The value of a mode's CC register, in the bits a register holds and those it does not. -/
def State.ccV (s : State) (r : BitVec 5) : BitVec 32 :=
  cpuInfo ++ (s.regset r).extractLsb' 16 7 ++ BitVec.ofBool false ++
    if r.getLsbD 4 then s.wUflags else s.wIflags

def State.wPcV (s : State) (r : BitVec 5) : BitVec 32 :=
  (if r.getLsbD 4 == s.dcd.oGie then s.dcd.oPc.extractLsb' 1 23 ++ (0 : BitVec 2)
    else s.upc ++ BitVec.ofBool s.uhaltPhase ++ BitVec.ofBool false : BitVec 25).setWidth 32

def State.wOpBnI (s : State) : BitVec 32 :=
  if !s.dcd.out.oRB then 0
  else if s.dcd.out.oDcdB.cc then s.ccV s.dcd.out.oDcdB.id
  else s.regset s.dcd.out.oDcdB.id

/-- Mask and value of the flags a condition looks at. -/
def condition (f : BitVec 3) : BitVec 7 :=
  if f = 0 then 0x00
  else if f = 1 then 0x11
  else if f = 2 then 0x44
  else if f = 3 then 0x22
  else if f = 4 then 0x08
  else if f = 5 then 0x10
  else if f = 6 then 0x40
  else 0x20

def State.opF (s : State) : BitVec 8 := BitVec.ofBool (s.rOpF.getLsbD 3) ++ s.rOpF

def State.opFl (s : State) : BitVec 4 :=
  if s.opGie then s.wUflags.setWidth 4 else s.wIflags.setWidth 4

def State.setCond (s : State) : Bool :=
  s.opF.extractLsb' 4 4 &&& s.opFl == s.opF.setWidth 4

def State.divCe (s : State) (i : Input) : Bool :=
  s.masterCe i && !s.newPc && s.opValidDiv && !s.memRdbusy && !s.div.oBusy && s.setCond

def State.wSwitchToInterrupt (s : State) (i : Input) : Bool :=
  s.gie && ((i.iInterrupt && !s.aluPhase) ||
    ((s.aluPcValid || s.memPcValid) && s.stepping && !s.aluPhase) ||
    (s.masterCe i && s.opBreak && !s.breakEn) || (s.aluIllegal && !s.newPc) ||
    s.div.oErr || s.mem.oErr ||
    (s.wrRegCe && !s.wrGie && s.wrRegId.getLsbD 4 && s.wrWriteCc))

def State.wReleaseFromInterrupt (s : State) (i : Input) : Bool :=
  !s.gie && !i.iInterrupt && (s.wrRegCe && s.wrGie && s.wrWriteScc)

/-- The supervisor writes the user's CC register. -/
def State.wrUccBySupervisor (s : State) : Bool := !s.aluGie && s.wrRegCe && s.wrWriteUcc

/-- An error bit of the user's: cleared on the way out of the supervisor, which may clear
it itself, and set by `err` in user mode. -/
def State.userErr (s : State) (i : Input) (flag : Bool) (bit : Nat) (err : Bool) : Bool :=
  if i.iRst || s.wReleaseFromInterrupt i then false
  else if s.wrUccBySupervisor then flag && s.wrSpregVl.getLsbD bit
  else if err && s.aluGie then true
  else flag

/-- An error bit of the supervisor's, which only a reset clears. -/
def State.supervisorErr (s : State) (i : Input) (flag err : Bool) : Bool :=
  if i.iRst then false
  else if err && !s.aluGie then true
  else flag

def State.wbCyc (s : State) : Bool := if s.rAOwner then s.mem.oWbCycGbl else s.pf.oWbCyc

def State.pfInput (s : State) (i : Input) : DblFetch.Input 23 where
  iReset := i.iRst
  iNewPc := s.newPc
  iClearCache := s.clearIcache
  iStallN := !s.pfStalled
  iPc := s.pfPc
  iWbAck := if s.rAOwner then false else i.iWbAck
  iWbStall := if s.rAOwner then true else i.iWbStall
  iWbErr := if s.rAOwner then false else i.iWbErr
  iWbData := i.iWbData

def State.dcdInput (s : State) : IDecode.Input where
  iRst := s.newPc || s.clearIcache
  iCe := s.dcdCe
  iStalled := s.dcdStalled
  iInstruction := s.pf.oInsn
  iGie := s.gie
  iPc := s.pf.oPc
  iPfValid := s.pf.oValid
  iIllegal := s.pf.oIllegal

def State.aluInput (s : State) (i : Input) : CpuOps.Input where
  iRst := s.newPc
  iCe := s.aluCe i
  iOp := s.opOpn
  iA := s.opAv
  iB := s.opBv

def State.divInput (s : State) (i : Input) : Div.Input where
  iRst := s.newPc
  iWr := s.divCe i
  iSigned := s.opOpn.getLsbD 0
  iNumerator := s.opAv
  iDenominator := s.opBv

def State.memInput (s : State) (i : Input) : MemOps.Input where
  iReset := i.iRst
  iStb := s.memCe i && s.setCond
  iLock := false
  iOp := s.opOpn.setWidth 3
  iAddr := s.opBv
  iData := s.opAv
  iOreg := s.opR
  iWbAck := if s.rAOwner then i.iWbAck else false
  iWbStall := if s.rAOwner then i.iWbStall else true
  iWbErr := if s.rAOwner then i.iWbErr else false
  iWbData := i.iWbData

def State.nextRAOwner (s : State) (i : Input) : Bool :=
  if i.iRst then true else if !s.wbCyc then !s.pf.oWbStb else s.rAOwner

def State.nextSleep (s : State) (i : Input) : Bool :=
  if i.iRst || s.wSwitchToInterrupt i then false
  else if s.wrRegCe && s.wrWriteCc && !s.aluGie then s.wrSleep && (!i.iInterrupt || !s.wrGie)
  else if s.wrRegCe && s.wrWriteCc && s.wrGie then s.wrSleep
  else s.sleep

def State.nextGie (s : State) (i : Input) : Bool :=
  if i.iRst then false
  else if s.wSwitchToInterrupt i then false
  else if s.wReleaseFromInterrupt i then true
  else s.gie

def State.nextTrap (s : State) (i : Input) : Bool :=
  if i.iRst || s.wReleaseFromInterrupt i then false
  else if s.aluGie && s.wrRegCe && !s.wrGie && s.wrWriteUcc then true
  else if s.wrRegCe && s.wrWriteUcc && !s.aluGie then s.trap && s.wrSpregVl.getLsbD 9
  else s.trap

def State.nextUbreak (s : State) (i : Input) : Bool :=
  if i.iRst || s.wReleaseFromInterrupt i then false
  else if s.opGie && s.opBreak && s.wSwitchToInterrupt i then true
  else if s.wrUccBySupervisor then s.ubreak && s.wrSpregVl.getLsbD 7
  else s.ubreak

def State.nextUhaltPhase (s : State) (i : Input) : Bool :=
  if i.iRst || s.wReleaseFromInterrupt i then false
  else if s.aluGie && s.aluPcValid then s.aluPhase
  else if s.wrUccBySupervisor then s.wrSpregVl.getLsbD 13
  else s.uhaltPhase

def State.nextUpc (s : State) : BitVec 23 :=
  if s.wrRegCe && s.wrRegId.getLsbD 4 && s.wrWritePc then s.wrSpregVl.extractLsb' 2 23
  else if s.aluGie && ((s.aluPcValid && !s.newPc && !s.aluIllegal) || s.memPcValid) then s.opPc
  else s.upc

def State.nextIpc (s : State) (i : Input) : BitVec 23 :=
  if i.iRst then resetBusAddress
  else if s.wrRegCe && !s.wrRegId.getLsbD 4 && s.wrWritePc then s.wrSpregVl.extractLsb' 2 23
  else if !s.aluGie && !s.aluPhase &&
    ((s.aluPcValid && !s.newPc && !s.aluIllegal) || s.memPcValid) then s.opPc
  else s.ipc

/-- The instruction just finished writes the PC of the mode the CPU is in. -/
def State.wrOwnPc (s : State) : Bool :=
  s.wrRegCe && s.wrRegId.getLsbD 4 == s.gie && s.wrWritePc

def State.nextPfPc (s : State) (i : Input) : BitVec 23 :=
  if i.iRst then resetBusAddress
  else if s.wSwitchToInterrupt i || (!s.gie && s.clearIcache) then s.ipc
  else if s.wReleaseFromInterrupt i || (s.gie && s.clearIcache) then s.upc
  else if s.wrOwnPc then s.wrSpregVl.extractLsb' 2 23
  else if s.newPc || (!s.pfStalled && s.pf.oValid) then s.pfPc + 1
  else s.pfPc

def State.nextNewPc (s : State) (i : Input) : Bool :=
  i.iRst || s.clearIcache || s.wSwitchToInterrupt i || s.wReleaseFromInterrupt i || s.wrOwnPc

/-- A register of the operand stage that says an instruction waits there. -/
def State.nextOpValid (s : State) (i : Input) (valid : Bool) (now : Bool) : Bool :=
  if s.newPc then false
  else if s.opCe then valid
  else if s.adfCeUnconditional i || s.memCe i then false
  else now

def step (s : State) (i : Input) : State where
  pf := DblFetch.step s.pf (s.pfInput i)
  dcd := IDecode.step s.dcd s.dcdInput
  alu := CpuOps.step s.alu (s.aluInput i)
  div := Div.step s.div (s.divInput i)
  mem := MemOps.step s.mem (s.memInput i)
  rAOwner := s.nextRAOwner i
  regset := if s.wrRegCe then Function.update s.regset s.wrRegId s.wrGpregVl else s.regset
  flags :=
    if s.wrRegCe && s.wrWriteUcc then s.wrGpregVl.setWidth 4
    else if s.wrFlagsCe && s.aluGie then s.newFlags
    else s.flags
  iflags :=
    if s.wrRegCe && s.wrWriteScc then s.wrGpregVl.setWidth 4
    else if s.wrFlagsCe && !s.aluGie then s.newFlags
    else s.iflags
  breakEn :=
    if i.iRst || i.iHalt then false
    else if s.wrRegCe && s.wrWriteScc then s.wrSpregVl.getLsbD 7
    else s.breakEn
  stepping :=
    if i.iRst then false
    else if s.wrRegCe && !s.aluGie && s.wrWriteUcc then s.wrSpregVl.getLsbD 6
    else s.stepping
  sleep := s.nextSleep i
  gie := s.nextGie i
  trap := s.nextTrap i
  ubreak := s.nextUbreak i
  illErrI := s.supervisorErr i s.illErrI (s.aluIllegal && !s.newPc)
  illErrU := s.userErr i s.illErrU 8 (s.aluIllegal && !s.newPc)
  ibusErrFlag := s.supervisorErr i s.ibusErrFlag s.mem.oErr
  ubusErrFlag := s.userErr i s.ubusErrFlag 10 s.mem.oErr
  idivErrFlag := s.supervisorErr i s.idivErrFlag s.div.oErr
  udivErrFlag := s.userErr i s.udivErrFlag 11 s.div.oErr
  ihaltPhase :=
    if i.iRst then false
    else if !s.aluGie && s.aluPcValid && !s.newPc then s.aluPhase
    else s.ihaltPhase
  uhaltPhase := s.nextUhaltPhase i
  upc := s.nextUpc
  ipc := s.nextIpc i
  pfPc := s.nextPfPc i
  clearIcache :=
    if i.iRst || i.iClearPfCache then true
    else s.wrRegCe && s.wrWriteScc && s.wrSpregVl.getLsbD 14
  newPc := s.nextNewPc i
  opAv :=
    if s.opCe then
      if s.dcd.out.oDcdA.pc then s.wPcV s.dcd.out.oDcdA.id
      else if s.dcd.out.oDcdA.cc then s.ccV s.dcd.out.oDcdA.id
      else s.regset s.dcd.out.oDcdA.id
    else s.opAv
  opBv :=
    if s.opCe then
      if s.dcd.out.oDcdB.pc && s.dcd.out.oRB then
        s.wPcV s.dcd.out.oDcdB.id + (s.dcd.oI.extractLsb' 0 30 ++ (0 : BitVec 2))
      else s.wOpBnI + s.dcd.oI
    else s.opBv
  rOpF := if s.opCe then condition (s.dcd.out.oCond.setWidth 3) else s.rOpF
  opValid := s.nextOpValid i s.dcd.rValid s.opValid
  opValidAlu :=
    s.nextOpValid i (s.dcd.rValid && (s.dcd.out.oALU || s.dcd.oIllegal)) s.opValidAlu
  opValidMem := s.nextOpValid i (s.dcd.out.oM && !s.dcd.oIllegal && s.dcd.rValid) s.opValidMem
  opValidDiv := s.nextOpValid i (s.dcd.out.oDV && !s.dcd.oIllegal && s.dcd.rValid) s.opValidDiv
  opBreak :=
    if i.iRst || s.newPc then false
    else if s.opCe then s.dcd.out.oBreak
    else if !s.opValid then false
    else s.opBreak
  opIllegal :=
    if s.newPc then false
    else if s.opCe then s.dcd.rValid && s.dcd.oIllegal
    else if s.aluCe i then false
    else s.opIllegal
  opWF :=
    if s.opCe then
      s.dcd.out.oWF && (!s.dcd.out.oDcdR.cc || !s.dcd.out.oWR) && !s.dcd.oIllegal
    else s.opWF
  opWR := if s.opCe then s.dcd.out.oWR && !s.dcd.oIllegal else s.opWR
  opOpn := if s.opChangeDataCe then s.dcd.out.oOp else s.opOpn
  opR := if s.opChangeDataCe then s.dcd.out.oDcdR.id else s.opR
  opGie := if s.opChangeDataCe then s.dcd.oGie else s.opGie
  opPc := if s.opChangeDataCe then s.dcd.oPc.extractLsb' 1 23 else s.opPc
  opPhase :=
    if s.newPc then false
    else if s.opChangeDataCe then s.dcd.rPhase && (!s.dcd.out.oWR || !s.dcd.out.oDcdR.pc)
    else s.opPhase
  aluWR :=
    if i.iRst then false
    else if s.aluCe i then s.opWR && s.setCond
    else if !s.alu.oBusy then false
    else s.aluWR
  aluWF :=
    if i.iRst then false
    else if s.aluCe i then s.opWF && s.setCond
    else if !s.alu.oBusy then false
    else s.aluWF
  aluPhase :=
    if i.iRst then false
    else if s.adfCeUnconditional i || s.memCe i then s.opPhase
    else s.aluPhase
  aluReg := s.opR
  aluIllegal := if s.newPc then false else s.aluCe i && s.opIllegal
  rAluPcValid :=
    if s.newPc then false
    else if s.adfCeUnconditional i && !s.opPhase then true
    else if !s.alu.oBusy && !s.div.oBusy then false
    else s.rAluPcValid
  memPcValid := !i.iRst && s.memCe i

end S6Soc.ZipCpu
