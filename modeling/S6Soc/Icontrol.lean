import Mathlib
import S6Soc.Clocked

/-! The interrupt controller, and the one-byte serial port whose levels it latches. -/
namespace S6Soc.Icontrol

abbrev Word := BitVec 32

structure State where
  rIntState : BitVec 11
  rIntEnable : BitVec 11
  rGie : Bool
  rAny : Bool
  rInterrupt : Bool
  deriving DecidableEq

/-- One clock: `wr` is `i_proc_bus` if `i_wr` is set. -/
def State.step (s : State) (wr : Option Word) (iBrdInts : BitVec 11) : State :=
  let nxtIntState := s.rIntState ||| iBrdInts
  match wr with
  | some iProcBus =>
    { rIntState := nxtIntState &&& ~~~(iProcBus.extractLsb' 0 11)
      rIntEnable := if iProcBus.getLsbD 31 then s.rIntEnable ||| iProcBus.extractLsb' 16 11
        else s.rIntEnable &&& ~~~(iProcBus.extractLsb' 16 11)
      rGie := iProcBus.getLsbD 31
      rAny := s.rIntState &&& s.rIntEnable ≠ 0
      rInterrupt := s.rGie && s.rAny }
  | none =>
    { s with
      rIntState := nxtIntState
      rAny := s.rIntState &&& s.rIntEnable ≠ 0
      rInterrupt := s.rGie && s.rAny }

def State.oProcBus (s : State) : Word :=
  BitVec.ofBool s.rGie ++ 0#4 ++ s.rIntEnable ++ BitVec.ofBool s.rAny ++ 0#4 ++ s.rIntState

variable {s : State} {wr : Option Word} {bus : Word} {ints : BitVec 11} {b : Nat}

theorem getLsbD_oProcBus (hb : b < 11) : s.oProcBus.getLsbD b = s.rIntState.getLsbD b := by
  unfold State.oProcBus
  simp only [BitVec.getLsbD_append]
  simp [hb]

theorem getLsbD_oProcBus_any : s.oProcBus.getLsbD 15 = s.rAny := by
  unfold State.oProcBus
  simp only [BitVec.getLsbD_append]
  simp

/-- A write clears the bits it names, also those latched in the same clock. -/
theorem step_rIntState (hb : b < 11) : (s.step wr ints).rIntState.getLsbD b =
    ((s.rIntState.getLsbD b || ints.getLsbD b) && !(wr.any fun bus => bus.getLsbD b)) := by
  cases wr with
  | none => simp [State.step]
  | some bus => simp [State.step, hb]

theorem step_rIntEnable (hb : b < 11) : (s.step wr ints).rIntEnable.getLsbD b =
    match wr with
    | none => s.rIntEnable.getLsbD b
    | some bus => if bus.getLsbD 31 then s.rIntEnable.getLsbD b || bus.getLsbD (16 + b)
      else s.rIntEnable.getLsbD b && !bus.getLsbD (16 + b) := by
  cases wr with
  | none => rfl
  | some bus =>
    simp only [State.step]
    split <;> simp [hb]

theorem step_rAny : (s.step wr ints).rAny = decide (s.rIntState &&& s.rIntEnable ≠ 0) := by
  cases wr <;> rfl

structure Port where
  txStb : Bool
  txData : BitVec 8
  rxRdy : Bool
  rRxData : BitVec 8
  deriving DecidableEq

/-- What the transmitter and the receiver do in a clock: `rxStb` is the byte if `rx_stb`. -/
structure Lines where
  txBusy : Bool
  rxStb : Option (BitVec 8)
  deriving DecidableEq

/-- One clock, in which the bus may write `io_uart` or read it. -/
def Port.step (p : Port) (wr : Option (BitVec 8)) (rd : Bool) (i : Lines) : Port where
  txData := wr.getD p.txData
  txStb := wr.isSome || (p.txStb && i.txBusy)
  rxRdy := if rd then i.rxStb.isSome else p.rxRdy || i.rxStb.isSome
  rRxData := i.rxStb.getD p.rRxData

/-- The byte that the transmitter takes in this clock. -/
def Port.takes (p : Port) (i : Lines) : Option (BitVec 8) :=
  if p.txStb && !i.txBusy then some p.txData else none

def Port.uartData (p : Port) : Word := 0#23 ++ BitVec.ofBool (!p.rxRdy) ++ p.rRxData

/-- What waits to be sent, and to be read. -/
def Port.held (p : Port) : List (BitVec 8) := if p.txStb then [p.txData] else []

def Port.waiting (p : Port) : List (BitVec 8) := if p.rxRdy then [p.rRxData] else []

/-- The other sources of interrupts. -/
structure Sources where
  gpioInt : Bool
  pwmInt : Bool
  keypadInt : Bool
  timerInt : Bool
  scopInterrupt : Bool
  wbErr : Bool
  buttonInt : Bool
  deriving DecidableEq

def intVector (p : Port) (i : Sources) : BitVec 11 :=
  BitVec.ofBoolListLE [i.buttonInt, i.wbErr, i.scopInterrupt, false, i.timerInt, false, p.rxRdy,
    !p.txStb, i.keypadInt, i.pwmInt, i.gpioInt]

variable {p : Port} {l : Lines} {i : Sources}

/-- A write into the empty register, or none: no byte is lost or repeated. -/
theorem takes_held {wr : Option (BitVec 8)} {rd : Bool} (h : wr ≠ none → p.txStb = false) :
    (p.takes l).toList ++ (p.step wr rd l).held = p.held ++ wr.toList := by
  cases hs : p.txStb <;> cases hb : l.txBusy <;> cases wr <;>
    simp_all [Port.takes, Port.held, Port.step]

/-- A byte comes in when none waits or while it is read. -/
theorem waiting_step (wr : Option (BitVec 8)) (rd : Bool)
    (h : l.rxStb ≠ none → p.rxRdy = false ∨ rd) :
    (if rd then p.waiting else []) ++ (p.step wr rd l).waiting =
      p.waiting ++ l.rxStb.toList := by
  cases hr : p.rxRdy <;> cases rd <;> cases hx : l.rxStb <;>
    simp_all [Port.waiting, Port.step]

theorem intVector_timer : (intVector p i).getLsbD 4 = i.timerInt := by
  rw [intVector, BitVec.getLsbD_ofBoolListLE]
  rfl

theorem intVector_uartTx : (intVector p i).getLsbD 7 = !p.txStb := by
  rw [intVector, BitVec.getLsbD_ofBoolListLE]
  rfl

end S6Soc.Icontrol
