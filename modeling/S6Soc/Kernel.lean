import S6Soc.Clocked
import S6Soc.SysPipe

/-! The kernel's task table under its traps and interrupts: which events a task waits
for, has pending, and gets. -/
namespace S6Soc.ZipOS
open Clocked

abbrev Word := BitVec 32

def SWINT_TIMEOUT : Word := 0x010000

def INT_TIMER : Word := 0x010

def EBADF : Int := 9

/-- What has happened to a task's events: some were posted, or a WAIT or CLEAR for `mask`
returned. -/
inductive Entry
  | posted (events : Word)
  | returned (mask result : Word)
  deriving DecidableEq

/-- Where a task is: in its own code, in a WAIT trap or just out of it, or in the copying
loop of a pipe call, where `fresh` means that no pass has been made and the trap's
`context[3]` and `[4]` still stand. -/
inductive Frame (ι : Type)
  | own
  | waiting (mask : Word)
  | reading (p : ι) (fresh : Bool) (dst : List (BitVec 8)) (nleft : Nat)
  | writing (p : ι) (fresh : Bool) (src : List (BitVec 8))
  deriving DecidableEq

/-- `context1` is the register that carries a trap's result. -/
structure Task (ι : Type) where
  state : SchedState
  context1 : Word
  waitsig : Word
  pending : Word
  timeout : Word
  frame : Frame ι
  log : List Entry

structure Kernel (τ ι : Type) where
  tasks : τ → Task ι
  pipes : ι → SysPipe τ
  fd : τ → Fin 4 → Option ι
  addr : τ → Word
  idle : τ
  current : τ
  needResched : Bool
  milliseconds : Word

variable {τ ι : Type} [DecidableEq τ] [DecidableEq ι]

/-- The timeouts of a task once `milliseconds` has wrapped into the sign. -/
def Task.expireWrapped (t : Task ι) (milliseconds : Word) : Task ι :=
  if t.timeout = 0 then t
  else
    let moved := t.timeout - 0x80000000#32
    let timeout := if moved = 0 then 1 else moved
    if timeout.toInt < milliseconds.toInt then
      { t with pending := t.pending ||| SWINT_TIMEOUT, timeout := 0 }
    else { t with timeout := timeout }

def Task.expire (t : Task ι) (milliseconds : Word) : Task ι :=
  if t.timeout = 0 then t
  else if t.timeout < milliseconds then
    { t with pending := t.pending ||| SWINT_TIMEOUT, timeout := 0 }
  else t

/-- A waiting task gets the events it waits for. -/
def Task.take (t : Task ι) (events : Word) : Task ι :=
  let pending := t.pending ||| events
  let got := t.waitsig &&& pending
  if t.state = .waiting ∧ got ≠ 0 then
    { t with
      state := .ready
      context1 := got
      pending := pending &&& ~~~got
      waitsig := 0
      log := t.log ++ .posted events ::
        match t.frame with
        | .waiting mask => [.returned mask got]
        | _ => [] }
  else { t with pending := pending, log := t.log ++ [.posted events] }

/-- `kpost` for one task, `ms` being `milliseconds` after the tick. -/
def Task.post (t : Task ι) (events ms : Word) : Task ι :=
  if ms.toInt < 0 then (t.expireWrapped (ms - 0x80000000#32)).take events
  else (t.expire ms).take events

def kpost (tasklist : τ → Task ι) (events milliseconds : Word) : (τ → Task ι) × Word :=
  let ms := if events &&& INT_TIMER ≠ 0 then milliseconds + 1 else milliseconds
  (fun t => (tasklist t).post events ms, if ms.toInt < 0 then ms - 0x80000000#32 else ms)

def Task.wait (t : Task ι) (ilist timeout milliseconds : Word) : Task ι :=
  let got := ilist &&& t.pending
  if t.pending &&& ilist ≠ 0 then
    { t with
      context1 := got
      pending := t.pending &&& ~~~got
      log := t.log ++ [.returned ilist got] }
  else if timeout = 0 then
    { t with context1 := got, waitsig := ilist, log := t.log ++ [.returned ilist got] }
  else if 0 < timeout.toInt then
    { t with
      context1 := got
      waitsig := ilist ||| SWINT_TIMEOUT
      state := .waiting
      timeout := milliseconds + timeout }
  else { t with context1 := got, waitsig := ilist, state := .waiting }

/-- The timeout is read from `context[2]`, as the mask is. -/
def Task.clear (t : Task ι) (mask milliseconds : Word) : Task ι :=
  let got := mask &&& t.pending
  let t' := { t with
    context1 := got
    pending := t.pending &&& ~~~got
    log := t.log ++ [.returned mask got] }
  if mask = 0 then t'
  else if mask.toInt < 0 then { t' with pending := t'.pending &&& ~~~SWINT_TIMEOUT }
  else { t' with timeout := milliseconds + mask }

/-- `ptr` and `ptr + len` lie in the block RAM. -/
def validRamRegion (ptr len : Word) : Bool := 0x4000#32 ≤ ptr && ptr + len < 0x8000#32

def validFlashRegion (ptr len : Word) : Bool := 0x1000000#32 ≤ ptr && ptr + len < 0x2000000#32

def validMemRegion (ptr len : Word) : Bool := validRamRegion ptr len || validFlashRegion ptr len

/-- The traps a task may take, with the registers they use. `bytes` is what lies at `src`;
`result` stands for those that only return a value, `TRAPID_TIME` and `TRAPID_MALLOC`. -/
inductive Trap
  | wait (ilist timeout : Word)
  | clear (mask : Word)
  | post (events : Word)
  | yield
  | read (fd dst len : Word)
  | write (fd src len : Word) (bytes : List (BitVec 8))
  | result (value : Word)
  | exit
  deriving DecidableEq

/-- What happens next: the interrupt handler posts events or serves a pipe, or the running
task traps or makes a pass of a copying loop, or another task is scheduled. -/
inductive Kernel.Event (τ ι : Type)
  | post (events : Word)
  | push (p : ι) (val : BitVec 8)
  | pop (p : ι)
  | popShort (p : ι)
  | trap (trap : Trap)
  | pass
  | schedule (t : τ)
  deriving DecidableEq

def Kernel.setTask (k : Kernel τ ι) (t : τ) (f : Task ι → Task ι) : Kernel τ ι :=
  { k with tasks := Function.update k.tasks t (f (k.tasks t)) }

def Kernel.setPipe (k : Kernel τ ι) (p : ι) (pipe : SysPipe τ) : Kernel τ ι :=
  { k with pipes := Function.update k.pipes p pipe }

def Kernel.wake (k : Kernel τ ι) : Option τ → Kernel τ ι
  | some t => k.setTask t fun u => { u with state := .ready }
  | none => k

/-- What a pipe trap does to the task that took it. -/
def Task.enter (t : Task ι) (r : Reply τ) (addr : Word) (frame : Frame ι) : Task ι :=
  match r.refused with
  | some errno => { t with context1 := BitVec.ofInt 32 errno, frame := .own }
  | none =>
    { t with
      context1 := addr
      state := if r.blocks then .waiting else t.state
      frame := frame }

def Kernel.enter (k : Kernel τ ι) (p : ι) (r : Reply τ) (frame : Frame ι) : Kernel τ ι :=
  (((k.setPipe p r.pipe).setTask k.current fun t =>
    t.enter r (k.addr k.current) frame).wake r.wakes)

/-- A WRITE to a descriptor from 4 on ends in `kpanic` and `zip_halt` in the source, without an
error in `context[1]`; here the task runs on, as after a READ. -/
def Kernel.badf (k : Kernel τ ι) : Kernel τ ι :=
  k.setTask k.current fun t => { t with context1 := BitVec.ofInt 32 (-EBADF), frame := .own }

def Kernel.lookup (k : Kernel τ ι) (fd : Word) : Option ι :=
  if h : fd.toNat < 4 then k.fd k.current ⟨fd.toNat, h⟩ else none

def Kernel.trap (k : Kernel τ ι) : Trap → Kernel τ ι
  | .wait ilist timeout => k.setTask k.current fun t =>
      { t.wait ilist timeout k.milliseconds with frame := .waiting ilist }
  | .clear mask => k.setTask k.current fun t =>
      { t.clear mask k.milliseconds with frame := .own }
  | .post events =>
    { k with tasks := (kpost k.tasks (events &&& ~~~0x07fff#32) k.milliseconds).1 }
  | .yield => { k with needResched := true }
  | .read fd dst len =>
    match k.lookup fd with
    | none => k.badf
    | some p => k.enter p
        (kreadSyspipe (k.pipes p) k.current len.toInt (validRamRegion dst len))
        (.reading p true [] len.toNat)
  | .write fd src len bytes =>
    match k.lookup fd with
    | none => k.badf
    | some p => k.enter p
        (kwriteSyspipe (k.pipes p) k.current len.toInt (validMemRegion src len))
        (.writing p true bytes)
  | .result value => k.setTask k.current fun t => { t with context1 := value, frame := .own }
  | .exit => { k.setTask k.current fun t => { t with state := .exit, frame := .own } with
      needResched := true }

def kpushSyspipe (p : SysPipe τ) (val : BitVec 8) : SysPipe τ × Option τ :=
  let tst := (p.mHead + 1) &&& p.mMask
  if tst ≠ p.mTail then
    ({ p with mBuf := Function.update p.mBuf p.mHead val, mHead := tst },
      match p.mRdtask with
      | .task r => some r
      | _ => none)
  else ({ p with mError := true }, none)

/-- `kpop_syspipe` takes one byte, `kpop_short_syspipe` two. -/
def kpopSyspipe (p : SysPipe τ) (n : Nat) : SysPipe τ × Option τ :=
  if p.mHead ≠ p.mTail then ({ p with mTail := (p.mTail + n) &&& p.mMask }, p.mWrtask)
  else (p, none)

def Frame.offered : Frame ι → List (BitVec 8)
  | .writing _ true src => src
  | _ => []

def Frame.wanted : Frame ι → List (BitVec 8) × Nat
  | .reading _ true dst nleft => (dst, nleft)
  | _ => ([], 0)

/-- A blocked writer after a reader took bytes from it, and the other way round. -/
def Frame.offer (src : List (BitVec 8)) : Frame ι → Frame ι
  | .writing p true _ => .writing p true src
  | f => f

def Frame.want (dst : List (BitVec 8)) (nleft : Nat) : Frame ι → Frame ι
  | .reading p true _ _ => .reading p true dst nleft
  | f => f

/-- How a pass leaves the task that made it; `frame` is the loop. -/
def Task.leave (t : Task ι) (o : Outcome) (frame : Frame ι) (milliseconds : Word) : Task ι :=
  match o with
  | .again => { t with frame := frame }
  | .sleeps => { t.wait 0 (-1) milliseconds with frame := frame }
  | .done n => { t with context1 := BitVec.ofNat 32 n, frame := .own }
  | .exits _ => { t with state := .exit, frame := .own }

def Kernel.leave (k : Kernel τ ι) (o : Outcome) (frame : Frame ι) : Kernel τ ι :=
  k.setTask k.current fun t => t.leave o frame k.milliseconds

def Kernel.partner (k : Kernel τ ι) (t : Option τ) (f : Frame ι → Frame ι) (wakes : Bool) :
    Kernel τ ι :=
  match t with
  | some t => k.setTask t fun u =>
      { u with frame := f u.frame, state := if wakes then .ready else u.state }
  | none => k

def ReadTask.toOption : ReadTask τ → Option τ
  | .task t => .some t
  | _ => Option.none

def Kernel.readPass (k : Kernel τ ι) (p : ι) (dst : List (BitVec 8)) (nleft : Nat) : Kernel τ ι :=
  let pipe := k.pipes p
  let src := (pipe.mWrtask.map fun w => (k.tasks w).frame.offered).getD []
  let (s, o) := Reading.pass ⟨pipe, dst, nleft, src, false⟩
  ((k.setPipe p s.pipe).partner pipe.mWrtask (.offer s.src) s.wakes).leave o
    (.reading p false s.dst s.nleft)

def Kernel.writePass (k : Kernel τ ι) (p : ι) (src : List (BitVec 8)) : Kernel τ ι :=
  let pipe := k.pipes p
  let want := (pipe.mRdtask.toOption.map fun r => (k.tasks r).frame.wanted).getD ([], 0)
  let (s, o) := Writing.pass ⟨pipe, src, want.1, want.2, false⟩
  ((k.setPipe p s.pipe).partner pipe.mRdtask.toOption (.want s.dst s.want) s.wakes).leave o
    (.writing p false s.src)

/-- A pass of the running task, or the return of a reader that a writer has served. -/
def Kernel.pass (k : Kernel τ ι) : Kernel τ ι :=
  match (k.tasks k.current).frame with
  | .reading p true _ 0 => k.leave (.done (k.pipes p).mNread) .own
  | .reading p _ dst nleft => k.readPass p dst nleft
  | .writing p _ src => k.writePass p src
  | _ => k

def Kernel.next (k : Kernel τ ι) : Kernel.Event τ ι → Kernel τ ι
  | .post events =>
    let (tasks, ms) := kpost k.tasks events k.milliseconds
    { k with tasks := tasks, milliseconds := ms }
  | .push p val =>
    let (pipe, t) := kpushSyspipe (k.pipes p) val
    (k.setPipe p pipe).wake t
  | .pop p =>
    let (pipe, t) := kpopSyspipe (k.pipes p) 1
    (k.setPipe p pipe).wake t
  | .popShort p =>
    let (pipe, t) := kpopSyspipe (k.pipes p) 2
    (k.setPipe p pipe).wake t
  | .trap trap => k.trap trap
  | .pass => k.pass
  | .schedule t => { k with current := t, needResched := false }

def Frame.inPipe : Frame ι → Bool
  | .reading .. => true
  | .writing .. => true
  | _ => false

/-- The running task traps from its own code or makes a pass of a loop. It runs on until it
yields, blocks or is the idle task; then any ready task may be next. -/
def Kernel.Enabled (k : Kernel τ ι) : Kernel.Event τ ι → Prop
  | .trap _ => (k.tasks k.current).state = .ready ∧ ¬ (k.tasks k.current).frame.inPipe ∧
      k.needResched = false
  | .pass => (k.tasks k.current).state = .ready ∧ (k.tasks k.current).frame.inPipe ∧
      k.needResched = false
  | .schedule t => (k.tasks t).state = .ready ∧
      (k.needResched ∨ (k.tasks k.current).state ≠ .ready ∨ k.current = k.idle)
  | _ => True

instance Kernel.decidableEnabled (k : Kernel τ ι) :
    (e : Kernel.Event τ ι) → Decidable (k.Enabled e)
  | .trap _ => inferInstanceAs (Decidable (_ ∧ _ ∧ _))
  | .pass => inferInstanceAs (Decidable (_ ∧ _ ∧ _))
  | .schedule _ => inferInstanceAs (Decidable (_ ∧ _))
  | .post _ | .push .. | .pop _ | .popShort _ => .isTrue trivial

/-- The tasks as `new_task` makes them. -/
structure Kernel.Init (k : Kernel τ ι) : Prop where
  state (t : τ) : (k.tasks t).state = .ready
  waitsig (t : τ) : (k.tasks t).waitsig = 0
  pending (t : τ) : (k.tasks t).pending = 0
  timeout (t : τ) : (k.tasks t).timeout = 0
  frame (t : τ) : (k.tasks t).frame = .own
  log (t : τ) : (k.tasks t).log = []
  milliseconds : k.milliseconds = 0

def kernelEntry : System (Kernel τ ι) (Kernel.Event τ ι) where
  init := Kernel.Init
  allowed := Kernel.Enabled
  next := Kernel.next

instance Kernel.decidableAllowed (k : Kernel τ ι) (e : Kernel.Event τ ι) :
    Decidable (kernelEntry.allowed k e) :=
  inferInstanceAs (Decidable (k.Enabled e))

end S6Soc.ZipOS
