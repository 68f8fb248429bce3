import S6Soc.DblFetch
import S6Soc.FlashFraming
import S6Soc.MemOps

/-! Memory unit and prefetch behind `wbdblpriarb`, on the bus of `busmaster` with its
one-clock slaves and the flash. -/
namespace S6Soc.BusMaster
open Clocked

inductive Master
  | domem
  | pf
  deriving DecidableEq

/-- A request on the bus: whose, when, where, and the word its slave answers. -/
structure Entry where
  master : Master
  time : Nat
  addr : BitVec 23
  word : BitVec 32

/-- The registers of the bus and of what hangs on it. The rest is bookkeeping: `owedMem`
and `owedPf` are the requests of each master's bus cycle that are taken and not answered,
`last` is what the bus showed in the clock before, `reading` the request the flash is
transferring and `read` the one it was transferring a clock before. -/
structure Soc where
  domem : MemOps.State 23
  pf : DblFetch.State 23
  aOwner : Bool
  ioAck : Bool
  scopAck : Bool
  memAck : Bool
  ioData : BitVec 32
  scopData : BitVec 32
  memData : BitVec 32
  flash : FlashXpress.Board
  now : Nat
  owedMem : List Entry
  owedPf : List Entry
  last : Entry
  reading : Entry
  read : Entry

/-- The CPU side of both masters, and what the data registers of the one-clock slaves load. -/
structure Input where
  iStb : Bool
  iOp : BitVec 3
  iAddr : BitVec 32
  iData : BitVec 32
  iOreg : BitVec 5
  iNewPc : Bool
  iClearCache : Bool
  iPc : BitVec 23
  iStallN : Bool
  ioData : BitVec 32
  scopData : BitVec 32
  memData : BitVec 32

def Soc.owner (s : Soc) : Master := if s.aOwner then .domem else .pf

def Soc.cycOf (s : Soc) : Master → Bool
  | .domem => s.domem.oWbCycGbl
  | .pf => s.pf.oWbCyc

def Soc.stbOf (s : Soc) : Master → Bool
  | .domem => s.domem.oWbStbGbl
  | .pf => s.pf.oWbStb

def Soc.addrOf (s : Soc) : Master → BitVec 23
  | .domem => s.domem.oWbAddr
  | .pf => s.pf.oWbAddr

def Soc.wbCyc (s : Soc) : Bool := s.cycOf s.owner

def Soc.wbStb (s : Soc) : Bool := s.stbOf s.owner

def Soc.wbAddr (s : Soc) : BitVec 23 := s.addrOf s.owner

def Soc.nextOwner (s : Soc) : Bool := if s.wbCyc then s.aOwner else !s.pf.oWbStb

def skipaddr (a : BitVec 23) : Bool × Bool × Bool × Bool :=
  (a.getLsbD 22, a.getLsbD 12, a.getLsbD 9, a.getLsbD 8)

def ioSel (a : BitVec 23) : Bool := skipaddr a == (false, false, false, true)

def scopSel (a : BitVec 23) : Bool :=
  skipaddr a == (false, false, true, false) || skipaddr a == (false, false, true, true)

def memSel (a : BitVec 23) : Bool := !(skipaddr a).1 && (skipaddr a).2.1

def flashSel (a : BitVec 23) : Bool := (skipaddr a).1

def unmapped (a : BitVec 23) : Bool := skipaddr a == (false, false, false, false)

def Soc.noneSel (s : Soc) : Bool := s.wbStb && unmapped s.wbAddr

def Soc.flashRequest (s : Soc) : FlashXpress.Request where
  cyc := s.wbCyc
  stb := s.wbStb && flashSel s.wbAddr
  addr := s.wbAddr.setWidth 22

def Soc.wbAck (s : Soc) : Bool :=
  s.wbCyc && (s.ioAck || s.scopAck || s.memAck || s.flash.core.oWbAck || s.noneSel)

def Soc.wbStall (s : Soc) : Bool := flashSel s.wbAddr && s.flash.core.oWbStall

def Soc.wbIdata (s : Soc) : BitVec 32 :=
  if s.ioAck || s.scopAck then (if s.ioAck then s.ioData else s.scopData)
  else if s.memAck then s.memData
  else s.flash.core.oWbData

def Soc.wbErr (s : Soc) : Bool := s.noneSel

def Soc.ackTo (s : Soc) (m : Master) : Bool := if m = s.owner then s.wbAck else false

def Soc.stallTo (s : Soc) (m : Master) : Bool := if m = s.owner then s.wbStall else true

def Soc.errTo (s : Soc) (m : Master) : Bool := if m = s.owner then s.wbErr else false

def Soc.memInput (s : Soc) (i : Input) : MemOps.Input where
  iReset := false
  iStb := i.iStb
  iLock := false
  iOp := i.iOp
  iAddr := i.iAddr
  iData := i.iData
  iOreg := i.iOreg
  iWbAck := s.ackTo .domem
  iWbStall := s.stallTo .domem
  iWbErr := s.errTo .domem
  iWbData := s.wbIdata

def Soc.pfInput (s : Soc) (i : Input) : DblFetch.Input 23 where
  iReset := false
  iNewPc := i.iNewPc
  iClearCache := i.iClearCache
  iStallN := i.iStallN
  iPc := i.iPc
  iWbAck := s.ackTo .pf
  iWbStall := s.stallTo .pf
  iWbErr := s.errTo .pf
  iWbData := s.wbIdata

variable (mem : BitVec 24 → BitVec 8)

/-- The word the selected slave answers: the flash its contents, the others what their
data register loads in this clock. -/
def answer (a : BitVec 23) (i : Input) : BitVec 32 :=
  if flashSel a then QspiFlash.word mem (a.setWidth 22)
  else if memSel a then i.memData
  else if scopSel a then i.scopData
  else i.ioData

def Soc.shown (s : Soc) (i : Input) : Entry :=
  ⟨s.owner, s.now, s.wbAddr, answer mem s.wbAddr i⟩

def Soc.owed (s : Soc) : Master → List Entry
  | .domem => s.owedMem
  | .pf => s.owedPf

/-- The requests of `m` this clock may answer: those owed, and the one just taken. -/
def Soc.queue (s : Soc) (i : Input) (m : Master) : List Entry :=
  s.owed m ++ if s.stbOf m && !s.stallTo m then [s.shown mem i] else []

def Soc.nextOwed (s : Soc) (i : Input) (m : Master) : List Entry :=
  if !s.cycOf m then []
  else if s.ackTo m || s.errTo m then (s.queue mem i m).tail
  else s.queue mem i m

/-- The requests whose slaves respond in this clock. -/
def Soc.sources (s : Soc) (i : Input) : List Entry :=
  (if s.ioAck then [s.last] else []) ++ (if s.scopAck then [s.last] else []) ++
    (if s.memAck then [s.last] else []) ++ (if s.flash.core.oWbAck then [s.read] else []) ++
    if s.noneSel then [s.shown mem i] else []

def Soc.next (s : Soc) (i : Input) : Soc where
  domem := MemOps.step s.domem (s.memInput i)
  pf := DblFetch.step s.pf (s.pfInput i)
  aOwner := s.nextOwner
  ioAck := s.wbStb && ioSel s.wbAddr
  scopAck := s.wbStb && scopSel s.wbAddr
  memAck := s.wbStb && memSel s.wbAddr
  ioData := i.ioData
  scopData := i.scopData
  memData := i.memData
  flash := s.flash.next mem s.flashRequest
  now := s.now + 1
  owedMem := s.nextOwed mem i .domem
  owedPf := s.nextOwed mem i .pf
  last := s.shown mem i
  reading := if s.flash.taken s.flashRequest then s.shown mem i else s.reading
  read := s.reading

/-- After the flash's start-up: nothing has been taken from either master, though the
prefetch may be waiting for the flash. -/
structure Soc.Init (s : Soc) : Prop where
  domemCyc : s.domem.rWbCycGbl = false
  domemLock : s.domem.lockGbl = false
  domemStb : s.domem.oWbStbGbl = false
  pfStb : s.pf.oWbStb = true → s.pf.oWbCyc = true ∧ s.pf.lastStb = false
  ioAck : s.ioAck = false
  scopAck : s.scopAck = false
  memAck : s.memAck = false
  flash : s.flash.Init
  owedMem : s.owedMem = []
  owedPf : s.owedPf = []

/-- The CPU may ask for anything, and abandon any fetch, in every clock. -/
def system : System Soc Input where
  init := Soc.Init
  allowed _ _ := True
  next := Soc.next mem

/-- What a master is told in this clock is the answer to its own oldest request, no other
slave responds, and the bus changes hands only between cycles. -/
structure Answered (s : Soc) (i : Input) : Prop where
  oldest : ∀ m, s.ackTo m = true ∨ s.errTo m = true →
    ∃ e rest, s.queue mem i m = e :: rest ∧ e.master = m ∧ s.sources mem i = [e] ∧
      s.ackTo m = true ∧ s.errTo m = unmapped e.addr ∧
      (unmapped e.addr = false → s.wbIdata = e.word)
  kept : s.wbCyc = true → (s.next mem i).owner = s.owner

/-- The flash is driven in time, and no word without a slave is asked for while another
request is unanswered. -/
structure Orderly (s : Soc) : Prop where
  timely : FlashXpress.Timely s.flash s.flashRequest
  mapped : s.noneSel = true → s.owed s.owner = []

end S6Soc.BusMaster
