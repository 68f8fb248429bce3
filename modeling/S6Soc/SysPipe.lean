import S6Soc.Ring

/-! Pipes between tasks: what the kernel does on a read or write trap, and one pass of the
user-mode loops that do the copying. -/
namespace S6Soc.ZipOS

inductive SchedState
  | ready
  | waiting
  | err
  | exit
  deriving DecidableEq

/-- `m_rdtask`: no task, `INTERRUPT_READ_TASK`, or a task. -/
inductive ReadTask (τ : Type)
  | none
  | interrupt
  | task (t : τ)
  deriving DecidableEq

/-- `m_mask + 1` is the size of `m_buf`, a power of two. -/
structure SysPipe (τ : Type) where
  mMask : Nat
  mHead : Nat
  mTail : Nat
  mRdtask : ReadTask τ
  mWrtask : Option τ
  mNread : Nat
  mNwritten : Nat
  mError : Bool
  mBuf : Nat → BitVec 8

def EIO : Int := 5

def EFAULT : Int := 14

def EBUSY : Int := 16

variable {τ : Type}

/-- What a pipe trap leaves behind: the pipe, the error in the caller's `context[1]` if it
is refused, whether the caller waits, and a task made ready. -/
structure Reply (τ : Type) where
  pipe : SysPipe τ
  refused : Option Int
  blocks : Bool
  wakes : Option τ

/-- The source goes on to `zip_halt` when a read is refused with `EBUSY` or `EFAULT`, and when a
write is for its region. Here the task runs on with the error: a run of the source is one of
these, and ends there. -/
def refuse (p : SysPipe τ) (errno : Int) : Reply τ := ⟨p, some (-errno), false, none⟩

/-- `valid` is `valid_ram_region(dst, len)`. -/
def kreadSyspipe (p : SysPipe τ) (tsk : τ) (len : Int) (valid : Bool) : Reply τ :=
  match p.mRdtask with
  | .none =>
    if p.mError then refuse { p with mTail := p.mHead, mError := false } EIO
    else if len ≤ 0 then refuse p EFAULT
    else if !valid then refuse p EFAULT
    else
      let p' := { p with mRdtask := .task tsk, mNread := 0 }
      match p.mWrtask with
      | some w => ⟨p', none, true, some w⟩
      | none => ⟨p', none, p.mHead == p.mTail, none⟩
  | _ => refuse p EBUSY

/-- `valid` is `valid_mem_region(src, len)`. -/
def kwriteSyspipe (p : SysPipe τ) (tsk : τ) (len : Int) (valid : Bool) : Reply τ :=
  match p.mWrtask with
  | none =>
    if len ≤ 0 then refuse p EFAULT
    else if !valid then refuse p EFAULT
    else
      let p' := { p with mWrtask := some tsk, mNwritten := 0 }
      match p.mRdtask with
      | .task r => ⟨p', none, true, some r⟩
      | _ => ⟨p', none, ((p.mHead + 1) &&& p.mMask) == p.mTail, none⟩
  | some _ => refuse p EBUSY

def numAvailSyspipe (p : SysPipe τ) : Nat := (p.mTail + (p.mMask + 1) - p.mHead - 1) &&& p.mMask

/-- How a pass of a copying loop ends. -/
inductive Outcome
  | again
  | sleeps
  | done (n : Nat)
  | exits (code : Nat)
  deriving DecidableEq

/-- Inside `uread_syspipe`: `dst` has been filled so far, `nleft` bytes are still wanted;
`src` is what `m_wrtask->context[3]` and `[4]` describe, `wakes` whether that task has been
made ready. -/
structure Reading (τ : Type) where
  pipe : SysPipe τ
  dst : List (BitVec 8)
  nleft : Nat
  src : List (BitVec 8)
  wakes : Bool

def Reading.copy (s : Reading τ) (ln : Nat) : Reading τ :=
  let nt := s.pipe.mTail + ln
  { s with
    pipe := { s.pipe with
      mNread := s.pipe.mNread + ln
      mTail := if s.pipe.mMask < nt then 0 else nt }
    dst := s.dst ++ Ring.run s.pipe.mBuf s.pipe.mTail ln
    nleft := s.nleft - ln }

/-- The cells from the tail to the end of the buffer, if the data wraps around. -/
def Reading.wrapped (s : Reading τ) (h : Nat) : Reading τ :=
  if h < s.pipe.mTail then s.copy (min (s.pipe.mMask + 1 - s.pipe.mTail) s.nleft) else s

/-- The cells from the tail to the head. -/
def Reading.straight (s : Reading τ) (h : Nat) : Reading τ :=
  if 0 < s.nleft then s.copy (min (h - s.pipe.mTail) s.nleft) else s

/-- `nleft & -2`, `m_nread & -2`. -/
def Reading.exitCode (s : Reading τ) : Option Nat :=
  if 2 ≤ s.nleft then some s.nleft
  else if 2 ≤ s.pipe.mNread then some s.pipe.mNread
  else none

/-- Straight from the buffer of a blocked writer. -/
def Reading.direct (s : Reading τ) : Reading τ :=
  if s.pipe.mWrtask.isSome then
    let ln := min s.nleft s.src.length
    { pipe := { s.pipe with
        mNwritten := s.pipe.mNwritten + ln
        mNread := s.pipe.mNread + ln
        mWrtask := if (s.src.drop ln).length = 0 then none else s.pipe.mWrtask }
      dst := s.dst ++ s.src.take ln
      nleft := s.nleft - ln
      src := s.src.drop ln
      wakes := s.wakes || (s.src.drop ln).length == 0 }
  else s

/-- After the loop: the read end is given up and a blocked writer made ready. -/
def Reading.finish (s : Reading τ) : Reading τ × Outcome :=
  ({ s with
      pipe := { s.pipe with mNread := 0, mRdtask := .none }
      wakes := s.wakes || s.pipe.mWrtask.isSome },
    .done s.pipe.mNread)

/-- One pass of the loop of `uread_syspipe`. -/
def Reading.pass (s : Reading τ) : Reading τ × Outcome :=
  let h := s.pipe.mHead
  let s₁ := s.wrapped h
  match if h < s.pipe.mTail then s₁.exitCode else none with
  | some code => (s₁, .exits code)
  | none =>
    let s₂ := s₁.straight h
    match if 0 < s₁.nleft then s₂.exitCode else none with
    | some code => (s₂, .exits code)
    | none =>
      let s₃ := if s₂.nleft = 0 then s₂ else s₂.direct
      if s₃.nleft = 0 then s₃.finish
      else (s₃, if s₃.pipe.mHead = s₃.pipe.mTail then .sleeps else .again)

/-- Inside `uwrite_syspipe`: `src` is still to be written; `dst` and `want` are what
`m_rdtask->context[3]` and `[4]` describe, `wakes` whether that task has been made ready. -/
structure Writing (τ : Type) where
  pipe : SysPipe τ
  src : List (BitVec 8)
  dst : List (BitVec 8)
  want : Nat
  wakes : Bool

/-- Straight into the buffer of a blocked reader. -/
def Writing.direct (s : Writing τ) : Writing τ :=
  match s.pipe.mRdtask with
  | .task r =>
    let ln := min s.src.length s.want
    { pipe := { s.pipe with
        mNread := s.pipe.mNread + ln
        mNwritten := s.pipe.mNwritten + ln
        mRdtask := if s.want - ln = 0 then .none else .task r }
      src := s.src.drop ln
      dst := s.dst ++ s.src.take ln
      want := s.want - ln
      wakes := s.wakes || s.want - ln == 0 }
  | _ => s

/-- Into the ring: everything that is left or, for an interrupt-drained pipe, what fits;
short of the end of the buffer. -/
def Writing.store (s : Writing τ) (navail : Nat) : Writing τ :=
  let ln := min (min (s.pipe.mMask + 1 - s.pipe.mHead) s.src.length) navail
  { s with
    pipe := { s.pipe with
      mBuf := Ring.store s.pipe.mBuf s.pipe.mHead (s.src.take ln)
      mHead := (s.pipe.mHead + ln) &&& s.pipe.mMask
      mNwritten := s.pipe.mNwritten + ln }
    src := s.src.drop ln }

def Writing.finish (s : Writing τ) : Writing τ × Outcome :=
  ({ s with pipe := { s.pipe with mWrtask := none } }, .done s.pipe.mNwritten)

def ReadTask.isTask : ReadTask τ → Bool
  | .task _ => true
  | _ => false

def ReadTask.isInterrupt : ReadTask τ → Bool
  | .interrupt => true
  | _ => false

def ReadTask.isNone : ReadTask τ → Bool
  | .none => true
  | _ => false

/-- The rest of a pass, `rdtask` being the reader found at its start. -/
def Writing.fill (s : Writing τ) (rdtask : ReadTask τ) : Writing τ × Outcome :=
  let navail := numAvailSyspipe s.pipe
  let fits := s.src.length ≤ navail ∨ rdtask.isInterrupt ∧ 0 < navail
  let s' := if fits then s.store navail else s
  let navail' := if fits then navail - (s.src.length - s'.src.length) else navail
  if s'.src = [] then s'.finish
  else if navail' ≠ 0 then (s', .again)
  else if rdtask.isInterrupt then (s', if numAvailSyspipe s'.pipe = 0 then .sleeps else .again)
  else (s', if s'.pipe.mRdtask.isNone then .sleeps else .again)

/-- One pass of the loop of `uwrite_syspipe`. -/
def Writing.pass (s : Writing τ) : Writing τ × Outcome :=
  let s' := s.direct
  if s.pipe.mRdtask.isTask ∧ s'.src = [] then s'.finish else s'.fill s.pipe.mRdtask

end S6Soc.ZipOS
