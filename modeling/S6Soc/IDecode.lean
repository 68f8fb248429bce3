import Mathlib.Tactic.Basic

/-! The instruction decoder `idecode`: compressed instructions, multiply and divide, no
floating point, no early branching, not pipelined. -/
namespace S6Soc.IDecode

def cpuSpReg : BitVec 4 := 0xd

def cpuCcReg : BitVec 4 := 0xe

def cpuPcReg : BitVec 4 := 0xf

/-- A register number of either register set, and whether it is the mode's own PC or CC. -/
structure RegId where
  cc : Bool
  pc : Bool
  id : BitVec 5
  deriving DecidableEq

/-- The outputs that depend on nothing but the instruction word and the mode. -/
structure Decoded where
  oDcdR : RegId
  oDcdA : RegId
  oDcdB : RegId
  rI : BitVec 23
  oCond : BitVec 4
  oWF : Bool
  oOp : BitVec 4
  oALU : Bool
  oM : Bool
  oDV : Bool
  oFP : Bool
  oBreak : Bool
  oWR : Bool
  oRA : Bool
  oRB : Bool
  deriving DecidableEq

structure State where
  rPhase : Bool
  oIllegal : Bool
  oPc : BitVec 24
  oGie : Bool
  out : Decoded
  rNxtHalf : BitVec 16
  rValid : Bool

structure Input where
  iRst : Bool
  iCe : Bool
  iStalled : Bool
  iInstruction : BitVec 32
  iGie : Bool
  iPc : BitVec 23
  iPfValid : Bool
  iIllegal : Bool

/-- The values of the `initial` statements; the other registers have none. -/
structure State.Initial (s : State) : Prop where
  rPhase : s.rPhase = false
  oIllegal : s.oIllegal = false

/-- `iword[31]`: the word holds two compressed instructions. -/
def cis (iword : BitVec 32) : Bool := iword.getLsbD 31

def wOp (iword : BitVec 32) : BitVec 5 := iword.extractLsb' 22 5

def wCisOp (iword : BitVec 32) : BitVec 5 :=
  if !cis iword then wOp iword
  else
    let op := iword.extractLsb' 24 3
    if op = 0 then 0x00
    else if op = 1 then 0x01
    else if op = 2 then 0x02
    else if op = 3 then 0x10
    else if op = 4 then 0x12
    else if op = 5 then 0x13
    else if op = 6 then 0x18
    else 0x0d

def wMov (iword : BitVec 32) : Bool := wCisOp iword == 0x0d

def wLdi (iword : BitVec 32) : Bool := (wCisOp iword).extractLsb' 1 4 == 0xc

def wBrev (iword : BitVec 32) : Bool := wCisOp iword == 0x08

def wCmptst (iword : BitVec 32) : Bool := (wCisOp iword).extractLsb' 1 4 == 0x8

def wLdilo (iword : BitVec 32) : Bool := wCisOp iword == 0x09

def wALU (iword : BitVec 32) : Bool :=
  !(wCisOp iword).getLsbD 4 && (wCisOp iword).extractLsb' 1 3 != 7

/-- Moves name the register set in the word itself, but only for the supervisor. -/
def regSet (iGie : Bool) (iword : BitVec 32) (bit : Nat) : Bool :=
  if !cis iword && wMov iword && !iGie then iword.getLsbD bit else iGie

def wDcdR (iGie : Bool) (iword : BitVec 32) : BitVec 5 :=
  BitVec.ofBool (regSet iGie iword 18) ++ iword.extractLsb' 27 4

def wDcdB (iGie : Bool) (iword : BitVec 32) : BitVec 5 :=
  BitVec.ofBool (regSet iGie iword 13) ++
    if cis iword then
      if !iword.getLsbD 23 && iword.extractLsb' 25 2 == 2 then cpuSpReg
      else iword.extractLsb' 19 4
    else iword.extractLsb' 14 4

/-- `dcdR[3:1] == 3'h7`: the result register is CC or PC. -/
def special (iword : BitVec 32) : Bool := iword.extractLsb' 28 3 == 7

def wNoop (iword : BitVec 32) : Bool := !cis iword && wOp iword == 0x1f

def wCond (iword : BitVec 32) : BitVec 4 :=
  if wLdi iword || cis iword then 8
  else BitVec.ofBool (iword.extractLsb' 19 3 == 0) ++ iword.extractLsb' 19 3

def wMem (iword : BitVec 32) : Bool :=
  (wCisOp iword).extractLsb' 3 2 == 2 && (wCisOp iword).extractLsb' 1 2 != 0

def wSto (iword : BitVec 32) : Bool := wMem iword && (wCisOp iword).getLsbD 0

def wDiv (iword : BitVec 32) : Bool := !cis iword && (wOp iword).extractLsb' 1 4 == 7

def wFpu (iword : BitVec 32) : Bool :=
  !cis iword && (wOp iword).extractLsb' 3 2 == 3 && !special iword &&
    (wOp iword).extractLsb' 1 2 != 0

def wRA (iword : BitVec 32) : Bool :=
  (wFpu iword && (wCisOp iword).extractLsb' 1 4 != 0xf) || wDiv iword ||
    (wALU iword && !wBrev iword && !wMov iword) || wSto iword || wCmptst iword

def wRB (iword : BitVec 32) : Bool :=
  wMov iword || (!cis iword && iword.getLsbD 18 && !wLdi iword) ||
    (cis iword && iword.getLsbD 23 && !wLdi iword) || (cis iword && wMem iword)

/-- The opcodes of the floating point unit with CC or PC for a result: BREAK, LOCK, SIM
and NOOP. -/
def noResult (iword : BitVec 32) : Bool :=
  (wCisOp iword).extractLsb' 3 2 == 3 && (wCisOp iword).extractLsb' 1 2 != 0 && special iword

def wWR (iword : BitVec 32) : Bool :=
  !(wSto iword || (!cis iword && noResult iword) || wCmptst iword)

def wWF (iword : BitVec 32) : Bool :=
  wCmptst iword ||
    ((wCond iword).getLsbD 3 && (wFpu iword || wDiv iword ||
      (wALU iword && !wMov iword && !wLdilo iword && !wBrev iword && !special iword)))

def wFullI (iword : BitVec 32) : BitVec 23 :=
  if wLdi iword then iword.extractLsb' 0 23
  else if wMov iword then (iword.extractLsb' 0 13).signExtend 23
  else if !iword.getLsbD 18 then (iword.extractLsb' 0 18).signExtend 23
  else (iword.extractLsb' 0 14).signExtend 23

def wHalfI (iword : BitVec 32) : BitVec 8 :=
  if iword.extractLsb' 24 3 = 6 then iword.extractLsb' 16 8
  else if iword.getLsbD 23 then (iword.extractLsb' 16 3).signExtend 8
  else (iword.extractLsb' 16 7).signExtend 8

def wI (iword : BitVec 32) : BitVec 23 :=
  if cis iword then (wHalfI iword).signExtend 23 else wFullI iword

def decode (iGie : Bool) (iword : BitVec 32) : Decoded :=
  let r := wDcdR iGie iword
  let b := wDcdB iGie iword
  let rPc := r == BitVec.ofBool iGie ++ cpuPcReg
  let rCc := r == BitVec.ofBool iGie ++ cpuCcReg
  { oDcdR := ⟨rCc, rPc, r⟩
    oDcdA := ⟨rCc, rPc, r⟩
    oDcdB := ⟨wRB iword && b.setWidth 4 == cpuCcReg, wRB iword && b.setWidth 4 == cpuPcReg, b⟩
    rI := wI iword
    oCond := wCond iword
    oWF := wWF iword
    oOp := if wLdi iword || wNoop iword then 0xd else (wCisOp iword).setWidth 4
    oALU := wALU iword || wLdi iword || wCmptst iword || wNoop iword
    oM := wMem iword
    oDV := wDiv iword
    oFP := wFpu iword
    oBreak := !cis iword && wOp iword == 0x1c
    oWR := wWR iword
    oRA := wRA iword
    oRB := wRB iword }

/-- Divides into CC or PC, floating point, and what `noResult` names other than BREAK
and NOOP. -/
def illegal (iword : BitVec 32) : Bool :=
  (wDiv iword && special iword) || wFpu iword ||
    (noResult iword && (wCisOp iword).setWidth 3 != 4 &&
      (wCisOp iword).setWidth 3 != (7 : BitVec 3))

def State.iword (s : State) (i : Input) : BitVec 32 :=
  if s.rPhase then s.rNxtHalf ++ i.iInstruction.extractLsb' 0 16 else i.iInstruction

def State.oI (s : State) : BitVec 32 := s.out.rI.signExtend 32

def step (s : State) (i : Input) : State where
  rPhase :=
    if i.iRst then false
    else if i.iCe && i.iPfValid then !s.rPhase && i.iInstruction.getLsbD 31
    else if i.iCe then false
    else s.rPhase
  oIllegal :=
    if i.iRst then false
    else if i.iCe then i.iIllegal || illegal (s.iword i)
    else s.oIllegal
  oPc :=
    if i.iCe then
      if cis (s.iword i) then
        if s.rPhase then s.oPc + 1
        else if i.iPfValid then i.iPc ++ (1 : BitVec 1)
        else s.oPc
      else (i.iPc + 1) ++ (0 : BitVec 1)
    else s.oPc
  oGie := if i.iCe && !s.rPhase then i.iGie else s.oGie
  out := if i.iCe then decode i.iGie (s.iword i) else s.out
  rNxtHalf :=
    if i.iCe then
      BitVec.ofBool ((s.iword i).getLsbD 31) ++ (s.iword i).extractLsb' 0 15
    else s.rNxtHalf
  rValid :=
    if i.iRst then false
    else if i.iCe then i.iPfValid || s.rPhase || i.iIllegal
    else if !i.iStalled then false
    else s.rValid

theorem wOp_eq_wCisOp {iword : BitVec 32} (h : cis iword = false) : wOp iword = wCisOp iword := by
  simp [wCisOp, h]

theorem decode_oALU {g : Bool} {iword : BitVec 32} (h : (decode g iword).oALU) :
    (decode g iword).oM = false ∧ (decode g iword).oDV = false := by
  have key : ∀ op : BitVec 5, !op.getLsbD 4 && op.extractLsb' 1 3 != 7 ∨
      op.extractLsb' 1 4 == 0xc ∨ op.extractLsb' 1 4 == 0x8 ∨ op == 0x1f →
      (op.extractLsb' 3 2 == 2 && op.extractLsb' 1 2 != 0) = false ∧
        (op.extractLsb' 1 4 == 7) = false := by decide
  have := key (wCisOp iword)
  simp only [decode, wALU, wLdi, wCmptst, wNoop, wMem, wDiv] at h ⊢
  cases hc : cis iword <;> simp_all [wOp_eq_wCisOp] <;> grind

theorem decode_oM {g : Bool} {iword : BitVec 32} (h : (decode g iword).oM) :
    (decode g iword).oDV = false := by
  have key : ∀ op : BitVec 5, op.extractLsb' 3 2 == 2 && op.extractLsb' 1 2 != 0 →
      (op.extractLsb' 1 4 == 7) = false := by decide
  have := key (wCisOp iword)
  simp only [decode, wMem, wDiv] at h ⊢
  cases hc : cis iword <;> simp_all [wOp_eq_wCisOp]

theorem decode_oBreak {g : Bool} {iword : BitVec 32} (h : (decode g iword).oBreak) :
    (decode g iword).oM = false ∧ (decode g iword).oDV = false := by
  have hw : cis iword = false ∧ wOp iword = 0x1c := by simpa [decode] using h
  have hc : wCisOp iword = 0x1c := wOp_eq_wCisOp hw.1 ▸ hw.2
  simp [decode, wMem, wDiv, hw, hc]

end S6Soc.IDecode
