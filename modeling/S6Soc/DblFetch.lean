import Mathlib.Logic.Function.Basic
import Mathlib.Tactic.Basic

/-! The two-word prefetch `dblfetch`: registers, inputs and one clock. -/
namespace S6Soc.DblFetch

structure State (aw : Nat) where
  oWbCyc : Bool
  oWbStb : Bool
  oWbAddr : BitVec aw
  lastAck : Bool
  lastStb : Bool
  invalidBusCycle : Bool
  cache : Bool → BitVec 32
  cacheReadAddr : Bool
  cacheWriteAddr : Bool
  cacheValid : Bool → Bool
  oInsn : BitVec 32
  oPc : BitVec aw
  oIllegal : Bool

structure Input (aw : Nat) where
  iReset : Bool
  iNewPc : Bool
  iClearCache : Bool
  iStallN : Bool
  iPc : BitVec aw
  iWbAck : Bool
  iWbStall : Bool
  iWbErr : Bool
  iWbData : BitVec 32

variable {aw : Nat}

/-- The values of the `initial` statements; `cache` has none. -/
def initial (aw : Nat) (cache : Bool → BitVec 32) : State aw where
  oWbCyc := false
  oWbStb := false
  oWbAddr := BitVec.allOnes aw
  lastAck := false
  lastStb := false
  invalidBusCycle := false
  cache := cache
  cacheReadAddr := false
  cacheWriteAddr := false
  cacheValid := fun _ => false
  oInsn := BitVec.allOnes 32
  oPc := 0
  oIllegal := false

def State.oValid (s : State aw) : Bool := s.cacheValid s.cacheReadAddr

/-- The decoder takes the word on the output. -/
def taken (s : State aw) (i : Input aw) : Bool := s.oValid && i.iStallN

def acked (s : State aw) (i : Input aw) : Bool := s.oWbCyc && i.iWbAck

def nextCyc (s : State aw) (i : Input aw) : Bool :=
  if i.iReset || (s.oWbCyc && i.iWbErr) then false
  else if s.oWbCyc then
    !((i.iWbAck && s.lastAck) || (i.iNewPc || i.iClearCache))
  else s.invalidBusCycle || i.iNewPc || (taken s i && s.cacheReadAddr)

def nextStb (s : State aw) (i : Input aw) : Bool :=
  if i.iReset || (s.oWbCyc && i.iWbErr) then false
  else if s.oWbCyc then
    if (i.iWbAck && s.lastAck) || (i.iNewPc || i.iClearCache) then false
    else if s.oWbStb && !i.iWbStall then !s.lastStb
    else s.oWbStb
  else if s.invalidBusCycle || i.iNewPc || (taken s i && s.cacheReadAddr) then true
  else s.oWbStb

def step (s : State aw) (i : Input aw) : State aw where
  oWbCyc := nextCyc s i
  oWbStb := nextStb s i
  oWbAddr :=
    if i.iNewPc then i.iPc
    else if s.oWbStb && !i.iWbStall && !s.invalidBusCycle then s.oWbAddr + 1
    else s.oWbAddr
  lastAck :=
    if !s.oWbCyc then false
    else if i.iWbAck then true
    else s.lastAck
  lastStb :=
    if s.oWbStb then
      if !i.iWbStall then true else s.lastStb
    else false
  invalidBusCycle :=
    if i.iReset then false
    else if i.iNewPc || i.iClearCache then true
    else if !s.oWbCyc then false
    else s.invalidBusCycle
  cache :=
    if acked s i then Function.update s.cache s.cacheWriteAddr i.iWbData else s.cache
  cacheReadAddr :=
    if i.iNewPc || s.invalidBusCycle || (taken s i && s.cacheReadAddr) then false
    else if taken s i then true
    else s.cacheReadAddr
  cacheWriteAddr :=
    if !s.oWbCyc then false
    else if i.iWbAck then !s.cacheWriteAddr
    else s.cacheWriteAddr
  cacheValid :=
    if i.iReset || i.iNewPc || s.invalidBusCycle then fun _ => false
    else
      let v := if taken s i then Function.update s.cacheValid s.cacheReadAddr false
        else s.cacheValid
      if acked s i then Function.update v s.cacheWriteAddr true else v
  oInsn :=
    if (i.iStallN || !s.oValid) && acked s i then i.iWbData
    else if !s.oValid then s.cache s.cacheReadAddr
    else if i.iStallN then s.cache (!s.cacheReadAddr)
    else s.oInsn
  oPc :=
    if i.iNewPc then i.iPc
    else if taken s i then s.oPc + 1
    else s.oPc
  oIllegal :=
    if s.oWbCyc && i.iWbErr then true
    else if !s.oWbCyc && (i.iNewPc || s.invalidBusCycle) then false
    else s.oIllegal

end S6Soc.DblFetch
