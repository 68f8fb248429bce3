import Mathlib
import S6Soc.Icontrol
import S6Soc.Kernel

/-! `kernel_entry` against the interrupt controller and the serial port, one bus access after
another with any number of clocks between two. -/
namespace S6Soc.ZipOS
open Clocked Icontrol

def INT_ENABLE : Word := 0x80000000

def INT_BUTTON : Word := 0x001

def INT_UARTRX : Word := 0x040

def INT_UARTTX : Word := 0x080

def INT_AUDIO : Word := 0x200

def INT_CLEARPIC : Word := 0x7fff7fff

def SWINT_CLOCK : Word := 0x080000

def TICKS_PER_SECOND : Nat := 1000

def intEnablev (int : Word) : Word := INT_ENABLE ||| int <<< 16

def intDisablev (int : Word) : Word := int <<< 16

/-- Where the supervisor is: what it does next with the controller or the port. `tx` to
`txDone` are `txchr`'s, for the start-up messages; `pic` is the pass's local variable. -/
inductive Point
  | ksetup
  | start
  | txClear (ch : BitVec 8) (str : List (BitVec 8))
  | txPoll (ch : BitVec 8) (str : List (BitVec 8))
  | txWrite (ch : BitVec 8) (str : List (BitVec 8))
  | txDone (str : List (BitVec 8))
  | user
  | entry
  | acknowledge (pic : Word)
  | receive (pic : Word)
  | echo (pic : Word) (v : BitVec 8)
  | echoed (pic : Word)
  | transmit (pic : Word) (ch : BitVec 8)
  | transmitted (pic : Word)
  | audio (pic : Word)
  | enable (pic : Word)
  | audioStart (pic : Word)
  | transmitStart (ch : BitVec 8)
  | transmitStarted
  | restart
  | panicked (pic : Word)
  deriving DecidableEq

/-- The board under `kernel_entry`. `handed` are the bytes that were in the holding register
at the start, of the messages, echoed, and popped for the transmitter, `sent` those it took;
`received` are the bytes that came in, `pushed` those that `kpush_syspipe` has stored in
`rxpipe`; `pulses` are the timer's. -/
structure Board (τ ι : Type) where
  pic : Icontrol.State
  port : Port
  kernel : Kernel τ ι
  point : Point
  enableset : Word
  ticks : Nat
  buttonstate : Nat
  audiostate : Bool
  message : List (BitVec 8)
  rxpipe : ι
  txpipe : ι
  pwmpipe : ι
  handed : List (BitVec 8)
  sent : List (BitVec 8)
  received : List (BitVec 8)
  pushed : List (BitVec 8)
  pulses : Nat

/-- What user mode does in a clock: `DISABLE_INTS`, `ENABLE_INTS`, something that only the
task table sees, or the end of its time. -/
inductive UserStep (τ ι : Type)
  | none
  | disableInts
  | enableInts
  | kernel (e : Kernel.Event τ ι)
  | stop
  deriving DecidableEq

/-- A clock: the lines into the board, whether the supervisor makes its access, and what it
reads at `io_spio` on the way to the next one. -/
structure Clock (τ ι : Type) where
  lines : Lines
  sources : Sources
  go : Bool
  spio : Word
  spio' : Word
  user : UserStep τ ι

inductive Access
  | writePic (data : Word)
  | readPic
  | writeUart (data : BitVec 8)
  | readUart
  deriving DecidableEq

variable {τ ι : Type}

def Board.access (s : Board τ ι) : Point → Option Access
  | .ksetup => some (.writePic INT_CLEARPIC)
  | .start => some (.writePic (INT_ENABLE ||| s.enableset ||| 0x07fff))
  | .txClear _ _ => some (.writePic INT_UARTTX)
  | .txPoll _ _ => some .readPic
  | .txWrite ch _ => some (.writeUart ch)
  | .txDone _ => some (.writePic INT_UARTTX)
  | .entry => some .readPic
  | .acknowledge pic => some (.writePic (intDisablev pic ||| pic))
  | .receive _ => some .readUart
  | .echo _ v => some (.writeUart v)
  | .echoed _ => some (.writePic INT_UARTTX)
  | .transmit _ ch => some (.writeUart ch)
  | .transmitted _ => some (.writePic INT_UARTTX)
  | .audio _ => some (.writePic INT_AUDIO)
  | .enable _ => some (.writePic INT_ENABLE)
  | .audioStart _ => some (.writePic INT_AUDIO)
  | .transmitStart ch => some (.writeUart ch)
  | .transmitStarted => some (.writePic INT_UARTTX)
  | .restart => some (.writePic (INT_ENABLE ||| s.enableset))
  | .user | .panicked _ => none

def UserStep.access : UserStep τ ι → Option Access
  | .disableInts => some (.writePic 0)
  | .enableInts => some (.writePic INT_ENABLE)
  | .none | .kernel _ | .stop => Option.none

def UserStep.event : UserStep τ ι → Option (Kernel.Event τ ι)
  | .kernel e => some e
  | .none | .disableInts | .enableInts | .stop => Option.none

def Board.bus (s : Board τ ι) (i : Clock τ ι) : Option Access :=
  if s.point = .user then i.user.access else if i.go then s.access s.point else none

def Access.picWrite : Access → Option Word
  | .writePic data => some data
  | _ => none

def Access.uartWrite : Access → Option (BitVec 8)
  | .writeUart data => some data
  | _ => none

section
variable [DecidableEq τ] [DecidableEq ι]

/-- The next character of a start-up message, or user mode. -/
def Board.message? (s : Board τ ι) : List (BitVec 8) → Board τ ι
  | [] => { s with point := .user }
  | ch :: str => { s with point := .txClear ch str, handed := s.handed ++ [ch] }

def Board.toRestart (s : Board τ ι) : Board τ ι :=
  { s with enableset := s.enableset &&& ~~~0x0ffff#32, point := .restart }

def Board.toPost (s : Board τ ι) (pic : Word) : Board τ ι :=
  { s with kernel := s.kernel.next (.post pic) }.toRestart

def Board.toAudio (s : Board τ ι) (pic : Word) : Board τ ι :=
  if s.audiostate ∧ pic &&& INT_AUDIO ≠ 0 then
    let pipe := s.kernel.pipes s.pwmpipe
    if pipe.mHead ≠ pipe.mTail then
      { s with kernel := s.kernel.next (.popShort s.pwmpipe), point := .audio pic }
    else
      { s with
        audiostate := false
        enableset := s.enableset &&& ~~~(intEnablev INT_AUDIO)
        point := .audio pic }
  else s.toPost pic

def Board.toTransmit (s : Board τ ι) (pic : Word) : Board τ ι :=
  if pic &&& INT_UARTTX ≠ 0 then
    let pipe := s.kernel.pipes s.txpipe
    if pipe.mHead ≠ pipe.mTail then
      let ch := pipe.mBuf pipe.mTail
      { s with
        kernel := s.kernel.next (.pop s.txpipe)
        enableset := s.enableset ||| intEnablev INT_UARTTX
        handed := s.handed ++ [ch]
        point := .transmit pic ch }
    else { s with enableset := s.enableset &&& ~~~(intDisablev INT_UARTTX) }.toAudio pic
  else s.toAudio pic

def Board.toReceive (s : Board τ ι) (pic : Word) : Board τ ι :=
  if pic &&& INT_UARTRX ≠ 0 then { s with point := .receive pic } else s.toTransmit pic

/-- The button, after a tick. -/
def Board.button (s : Board τ ι) (pic spio : Word) : Board τ ι :=
  if pic &&& INT_BUTTON ≠ 0 then
    let s := { s with enableset := s.enableset &&& ~~~(intEnablev INT_BUTTON) }
    if spio &&& 0x0f0 = 0x030 then { s with point := .panicked pic }
    else if s.buttonstate ≠ 0 then
      { s with buttonstate := 50 }.toReceive (pic &&& ~~~INT_BUTTON)
    else { s with buttonstate := 50 }.toReceive pic
  else s.toReceive pic

def Board.tick (s : Board τ ι) (pic spio : Word) : Board τ ι × Word :=
  if pic &&& INT_TIMER ≠ 0 then
    let (s, pic) := if TICKS_PER_SECOND ≤ s.ticks + 1
      then ({ s with ticks := 0 }, pic ||| SWINT_CLOCK)
      else ({ s with ticks := s.ticks + 1 }, pic)
    if s.buttonstate ≠ 0 then ({ s with buttonstate := s.buttonstate - 1 }, pic)
    else if spio &&& 0x0f0 = 0 then
      ({ s with enableset := s.enableset ||| intEnablev INT_BUTTON }, pic)
    else (s, pic)
  else (s, pic)

def SysPipe.Full (p : SysPipe τ) : Prop := (p.mHead + 1) &&& p.mMask = p.mTail

instance (p : SysPipe τ) : Decidable p.Full := inferInstanceAs (Decidable (_ = _))

/-- The byte read at `io_uart`, and the local echo. -/
def Board.received? (s : Board τ ι) (pic v : Word) : Board τ ι :=
  if v &&& ~~~0x7f#32 = 0 then
    let val := v.setWidth 8
    let s := { s with
      kernel := s.kernel.next (.push s.rxpipe val)
      pushed := if (s.kernel.pipes s.rxpipe).Full then s.pushed else s.pushed ++ [val] }
    if pic &&& INT_UARTTX ≠ 0 then
      { s with handed := s.handed ++ [val], point := .echo pic val }
    else s.toTransmit pic
  else s.toTransmit pic

/-- The beginning of a transmission, in a pass without an interrupt. -/
def Board.toTransmitStart (s : Board τ ι) (pic : Word) : Board τ ι :=
  if pic &&& INT_UARTTX ≠ 0 then
    let pipe := s.kernel.pipes s.txpipe
    if pipe.mHead ≠ pipe.mTail then
      let ch := pipe.mBuf pipe.mTail
      { s with
        kernel := s.kernel.next (.pop s.txpipe)
        enableset := s.enableset ||| intEnablev INT_UARTTX
        handed := s.handed ++ [ch]
        point := .transmitStart ch }
    else { s with enableset := s.enableset &&& ~~~(intEnablev INT_UARTTX) }.toRestart
  else s.toRestart

def Board.toAudioStart (s : Board τ ι) (pic : Word) : Board τ ι :=
  let pipe := s.kernel.pipes s.pwmpipe
  if s.audiostate = false ∧ pipe.mHead ≠ pipe.mTail then
    { s with
      kernel := s.kernel.next (.popShort s.pwmpipe)
      audiostate := true
      point := .audioStart pic }
  else s.toTransmitStart pic

/-- What follows the access, `pic` and `v` being what is read at `io_pic` and `io_uart`. -/
def Board.resume (s : Board τ ι) (i : Clock τ ι) : Point → Board τ ι
  | .ksetup => { s with point := .start }
  | .start => s.message? s.message
  | .txClear ch str => { s with point := .txPoll ch str }
  | .txPoll ch str =>
    if s.pic.oProcBus &&& INT_UARTTX = 0 then s else { s with point := .txWrite ch str }
  | .txWrite _ str => { s with point := .txDone str }
  | .txDone str => s.message? str
  | .entry =>
    let pic := s.pic.oProcBus
    if pic &&& 0x8000 ≠ 0 then { s with point := .acknowledge (pic &&& 0x7fff) }
    else { s with point := .enable pic }
  | .acknowledge pic =>
    let (s, pic) := s.tick pic i.spio
    s.button pic i.spio'
  | .receive pic => s.received? pic s.port.uartData
  | .echo pic _ => { s with point := .echoed pic }
  | .echoed pic => s.toTransmit (pic &&& ~~~INT_UARTTX)
  | .transmit pic _ => { s with point := .transmitted pic }
  | .transmitted pic => s.toAudio pic
  | .audio pic => s.toPost pic
  | .enable pic => s.toAudioStart pic
  | .audioStart pic =>
    { s with enableset := s.enableset ||| intEnablev INT_AUDIO }.toTransmitStart pic
  | .transmitStart _ => { s with point := .transmitStarted }
  | .transmitStarted => s.toRestart
  | .restart => { s with point := .user }
  | .user =>
    match i.user with
    | .stop => { s with point := .entry }
    | .kernel e => { s with kernel := s.kernel.next e }
    | .none | .disableInts | .enableInts => s
  | .panicked _ => s

def Board.next (s : Board τ ι) (i : Clock τ ι) : Board τ ι :=
  let t := if i.go ∨ s.point = .user then s.resume i s.point else s
  { t with
    pic := s.pic.step ((s.bus i).bind Access.picWrite) (intVector s.port i.sources)
    port := s.port.step ((s.bus i).bind Access.uartWrite) (s.bus i = some .readUart) i.lines
    sent := s.sent ++ (s.port.takes i.lines).toList
    received := s.received ++ i.lines.rxStb.toList
    pulses := s.pulses + i.sources.timerInt.toNat }

/-- Between two passes come the trap that a task has taken, the choice of the next task, and
passes of the pipes' copying loops. -/
def Kernel.Between (k : Kernel τ ι) : Kernel.Event τ ι → Prop
  | .trap tr => k.Enabled (.trap tr)
  | .pass => k.Enabled .pass
  | .schedule t => k.Enabled (.schedule t)
  | .post _ | .push .. | .pop _ | .popShort _ => False

def Board.Enabled (s : Board τ ι) (i : Clock τ ι) : Prop :=
  ∀ e ∈ i.user.event, s.kernel.Between e

/-- The controller and the port may be in any state, as the register dump before the kernel
leaves them. -/
structure Board.Init (s : Board τ ι) : Prop where
  kernel : s.kernel.Init
  point : s.point = .ksetup
  enableset : s.enableset = intEnablev INT_BUTTON ||| intEnablev INT_TIMER
  ticks : s.ticks = 0
  buttonstate : s.buttonstate = 0
  audiostate : s.audiostate = false
  handed : s.handed = s.port.held
  sent : s.sent = []
  received : s.received = s.port.waiting
  pushed : s.pushed = []
  pulses : s.pulses = 0

def board : System (Board τ ι) (Clock τ ι) where
  init := Board.Init
  allowed := Board.Enabled
  next := Board.next

end

end S6Soc.ZipOS
