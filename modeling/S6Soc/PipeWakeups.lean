import Mathlib
import S6Soc.PipeCalls

/-! Tasks asleep beside a pipe: the loops test the ring and then trap to wait, and the interrupt
handler may serve the pipe in between. -/
namespace S6Soc.ZipOS
open Clocked

variable {τ ι : Type}

/-- A pass up to its test of the ring, if it gets there. -/
def Reading.body (s : Reading τ) : Reading τ × Option Outcome :=
  let h := s.pipe.mHead
  let s₁ := s.wrapped h
  match if h < s.pipe.mTail then s₁.exitCode else none with
  | some code => (s₁, some (.exits code))
  | none =>
    let s₂ := s₁.straight h
    match if 0 < s₁.nleft then s₂.exitCode else none with
    | some code => (s₂, some (.exits code))
    | none =>
      let s₃ := if s₂.nleft = 0 then s₂ else s₂.direct
      if s₃.nleft = 0 then (s₃.finish.1, some s₃.finish.2) else (s₃, none)

def Writing.fillBody (s : Writing τ) (rdtask : ReadTask τ) : Writing τ × Option Outcome :=
  let navail := numAvailSyspipe s.pipe
  let fits := s.src.length ≤ navail ∨ rdtask.isInterrupt ∧ 0 < navail
  let s' := if fits then s.store navail else s
  let navail' := if fits then navail - (s.src.length - s'.src.length) else navail
  if s'.src = [] then (s'.finish.1, some s'.finish.2)
  else if navail' ≠ 0 then (s', some .again)
  else (s', none)

def Writing.body (s : Writing τ) : Writing τ × Option Outcome :=
  let s' := s.direct
  if s.pipe.mRdtask.isTask ∧ s'.src = [] then (s'.finish.1, some s'.finish.2)
  else s'.fillBody s.pipe.mRdtask

/-- The writer's test, `interrupt` being what it has found in `m_rdtask` at the start. -/
def SysPipe.Stuck (p : SysPipe τ) (interrupt : Bool) : Prop :=
  if interrupt then numAvailSyspipe p = 0 else p.mRdtask.isNone

instance (p : SysPipe τ) (interrupt : Bool) : Decidable (p.Stuck interrupt) :=
  inferInstanceAs (Decidable (if interrupt then _ else _))

theorem reading_pass_body {s : Reading τ} : s.pass = (s.body.1, s.body.2.getD
    (if s.body.1.pipe.mHead = s.body.1.pipe.mTail then .sleeps else .again)) := by
  unfold Reading.pass Reading.body
  obtain ⟨wrapped, hw⟩ : ∃ o, (if s.pipe.mHead < s.pipe.mTail then
    (s.wrapped s.pipe.mHead).exitCode else none) = o := ⟨_, rfl⟩
  obtain ⟨straight, hs⟩ : ∃ o, (if 0 < (s.wrapped s.pipe.mHead).nleft then
    ((s.wrapped s.pipe.mHead).straight s.pipe.mHead).exitCode else none) = o := ⟨_, rfl⟩
  simp only [hw, hs]
  cases wrapped with
  | some code => rfl
  | none =>
    cases straight with
    | some code => rfl
    | none =>
      dsimp only
      split_ifs <;> rfl

theorem fill_body {s : Writing τ} {r : ReadTask τ} : s.fill r = ((s.fillBody r).1,
    (s.fillBody r).2.getD
      (if (s.fillBody r).1.pipe.Stuck r.isInterrupt then .sleeps else .again)) := by
  unfold Writing.fill Writing.fillBody SysPipe.Stuck
  dsimp only
  split_ifs <;> rfl

theorem writing_pass_body {s : Writing τ} : s.pass = (s.body.1, s.body.2.getD
    (if s.body.1.pipe.Stuck s.pipe.mRdtask.isInterrupt then .sleeps else .again)) := by
  unfold Writing.pass Writing.body
  by_cases hc : s.pipe.mRdtask.isTask ∧ s.direct.src = []
  · simp only [if_pos hc]
    rfl
  · simp only [if_neg hc]
    exact fill_body

/-- As `new_syspipe` makes it: the ring's size is a power of two. -/
structure SysPipe.Placed (p : SysPipe τ) : Prop where
  mask : ∃ k, p.mMask = 2 ^ k - 1
  head : p.mHead ≤ p.mMask
  tail : p.mTail ≤ p.mMask

section
variable {p : SysPipe τ} {s : Reading τ} {w : Writing τ} {h ln : Nat} {r : ReadTask τ}

theorem SysPipe.Placed.and_mask (hp : p.Placed) (n : Nat) :
    n &&& p.mMask = n % (p.mMask + 1) :=
  Ring.and_mask hp.mask n

/-- The loop and `kpush_syspipe` agree on when the ring is full. -/
theorem SysPipe.Placed.numAvail_eq_zero (hp : p.Placed) :
    numAvailSyspipe p = 0 ↔ (p.mHead + 1) &&& p.mMask = p.mTail := by
  have hh := hp.head
  have ht := hp.tail
  rw [numAvailSyspipe, hp.and_mask, hp.and_mask]
  rcases Nat.lt_or_ge p.mHead p.mTail with hlt | hge
  · rw [Nat.mod_eq_of_lt (by omega : p.mHead + 1 < p.mMask + 1)]
    rw [show p.mTail + (p.mMask + 1) - p.mHead - 1 = p.mTail - p.mHead - 1 + (p.mMask + 1) by omega,
      Nat.add_mod_right, Nat.mod_eq_of_lt (by omega)]
    omega
  · rw [Nat.mod_eq_of_lt (by omega : p.mTail + (p.mMask + 1) - p.mHead - 1 < p.mMask + 1)]
    rcases Nat.lt_or_ge p.mHead p.mMask with hm | hm
    · rw [Nat.mod_eq_of_lt (by omega)]
      omega
    · rw [show p.mHead + 1 = p.mMask + 1 by omega, Nat.mod_self]
      omega

/-- What a pass does to the ring and its ends. -/
structure SysPipe.Keeps (p q : SysPipe τ) : Prop where
  placed : p.Placed → q.Placed
  interrupt : q.mRdtask.isInterrupt → p.mRdtask.isInterrupt
  releases : p.Releases q

theorem SysPipe.Keeps.refl : p.Keeps p := ⟨fun h => h, fun h => h, .refl⟩

theorem SysPipe.Keeps.trans {p q r : SysPipe τ} (h : p.Keeps q) (h' : q.Keeps r) : p.Keeps r :=
  ⟨fun hp => h'.placed (h.placed hp), fun hr => h.interrupt (h'.interrupt hr),
    h.releases.trans h'.releases⟩

theorem keeps_copy : s.pipe.Keeps (s.copy ln).pipe := by
  refine ⟨fun hp => ⟨hp.mask, hp.head, ?_⟩, fun hr => hr, fun _ h => h, fun _ h => h⟩
  simp only [Reading.copy]
  split_ifs <;> omega

theorem keeps_wrapped : s.pipe.Keeps (s.wrapped h).pipe := by
  unfold Reading.wrapped
  split_ifs
  · exact keeps_copy
  · exact .refl

theorem keeps_straight : s.pipe.Keeps (s.straight h).pipe := by
  unfold Reading.straight
  split_ifs
  · exact keeps_copy
  · exact .refl

theorem keeps_reading_direct : s.pipe.Keeps s.direct.pipe := by
  refine ⟨fun hp => ?_, fun hr => ?_, releases_reading_direct⟩
  · unfold Reading.direct
    split_ifs
    · exact ⟨hp.mask, hp.head, hp.tail⟩
    · exact hp
  · unfold Reading.direct at hr
    split_ifs at hr <;> exact hr

theorem keeps_reading_finish : s.pipe.Keeps s.finish.1.pipe :=
  ⟨fun hp => ⟨hp.mask, hp.head, hp.tail⟩, fun hr => (by cases hr), releases_reading_finish⟩

theorem keeps_reading_body : s.pipe.Keeps s.body.1.pipe := by
  have hw : s.pipe.Keeps (s.wrapped s.pipe.mHead).pipe := keeps_wrapped
  have hs : s.pipe.Keeps ((s.wrapped s.pipe.mHead).straight s.pipe.mHead).pipe :=
    hw.trans keeps_straight
  unfold Reading.body
  dsimp only
  split
  · exact hw
  · split
    · exact hs
    · by_cases hz : ((s.wrapped s.pipe.mHead).straight s.pipe.mHead).nleft = 0
      · simp only [if_pos hz]
        exact hs.trans keeps_reading_finish
      · have hd := hs.trans keeps_reading_direct
        simp only [if_neg hz]
        split_ifs
        · exact hd.trans keeps_reading_finish
        · exact hd

/-- A pass of a reader leaves an empty ring as it is. -/
theorem reading_body_empty (hp : s.pipe.Placed) (he : s.pipe.mHead = s.pipe.mTail) :
    s.body.1.pipe.mHead = s.body.1.pipe.mTail := by
  have hw : s.wrapped s.pipe.mHead = s := by
    rw [Reading.wrapped, if_neg (by omega)]
  have hs : (s.straight s.pipe.mHead).pipe.mHead = (s.straight s.pipe.mHead).pipe.mTail := by
    have ht := hp.tail
    unfold Reading.straight
    split_ifs
    · simp only [Reading.copy]
      rw [if_neg (by omega)]
      omega
    · exact he
  have hd : ∀ r : Reading τ, r.pipe.mHead = r.pipe.mTail →
      r.direct.pipe.mHead = r.direct.pipe.mTail := by
    intro r hr
    unfold Reading.direct
    split_ifs <;> exact hr
  unfold Reading.body
  simp only [hw]
  split
  · exact he
  · split
    · exact hs
    · by_cases hz : (s.straight s.pipe.mHead).nleft = 0
      · simp only [if_pos hz]
        exact hs
      · simp only [if_neg hz]
        split_ifs
        · exact hd _ hs
        · exact hd _ hs

theorem keeps_writing_direct : w.pipe.Keeps w.direct.pipe := by
  refine ⟨fun hp => ?_, fun hr => ?_, releases_writing_direct⟩
  · unfold Writing.direct
    split
    · exact ⟨hp.mask, hp.head, hp.tail⟩
    · exact hp
  · unfold Writing.direct at hr
    split at hr
    · dsimp only at hr
      split_ifs at hr <;> cases hr
    · exact hr

theorem keeps_store : w.pipe.Keeps (w.store ln).pipe :=
  ⟨fun hp => ⟨hp.mask, Nat.and_le_right, hp.tail⟩, fun hr => hr, fun _ h => h, fun _ h => h⟩

theorem keeps_writing_finish : w.pipe.Keeps w.finish.1.pipe :=
  ⟨fun hp => ⟨hp.mask, hp.head, hp.tail⟩, fun hr => hr, fun _ h => h,
    fun _ h => by simp [Writing.finish] at h⟩

theorem keeps_fillBody : w.pipe.Keeps (w.fillBody r).1.pipe := by
  unfold Writing.fillBody
  dsimp only
  split_ifs <;> first
    | exact .refl
    | exact keeps_store
    | exact keeps_store.trans keeps_writing_finish
    | exact keeps_writing_finish

theorem keeps_writing_body : w.pipe.Keeps w.body.1.pipe := by
  unfold Writing.body
  dsimp only
  split_ifs
  · exact keeps_writing_direct.trans keeps_writing_finish
  · exact keeps_writing_direct.trans keeps_fillBody

theorem fillBody_rdtask : (w.fillBody r).1.pipe.mRdtask = w.pipe.mRdtask := by
  unfold Writing.fillBody
  dsimp only
  split_ifs <;> rfl

theorem writing_body_rdtask : w.body.1.pipe.mRdtask = w.direct.pipe.mRdtask := by
  unfold Writing.body
  dsimp only
  split_ifs
  · rfl
  · exact fillBody_rdtask

/-- A writer keeps the mark of an interrupt-drained pipe. -/
theorem writing_body_interrupt :
    w.body.1.pipe.mRdtask.isInterrupt = w.pipe.mRdtask.isInterrupt := by
  rw [writing_body_rdtask]
  unfold Writing.direct
  split
  next t ht =>
    dsimp only
    rw [ht]
    split_ifs <;> rfl
  · rfl

/-- A writer releases a reader whose registers want nothing. -/
theorem writing_body_unwanted {t : τ} (hr : w.pipe.mRdtask = .task t) (hw : w.want = 0) :
    w.body.1.pipe.mRdtask = .none := by
  rw [writing_body_rdtask]
  unfold Writing.direct
  simp [hr, hw]

theorem reading_body_goes_on : s.body.2 ≠ some .sleeps := by
  unfold Reading.body
  dsimp only
  split
  · simp
  · split
    · simp
    · split_ifs <;> simp [Reading.finish]

theorem fillBody_goes_on : (w.fillBody r).2 ≠ some .sleeps := by
  unfold Writing.fillBody
  dsimp only
  split_ifs <;> simp [Writing.finish]

theorem writing_body_goes_on : w.body.2 ≠ some .sleeps := by
  unfold Writing.body
  dsimp only
  split_ifs
  · simp [Writing.finish]
  · exact fillBody_goes_on

/-- A pass leaves a full ring that an interrupt drains as it is, or the writer returns. -/
theorem writing_body_full (hr : w.pipe.mRdtask = .interrupt) (hf : numAvailSyspipe w.pipe = 0) :
    numAvailSyspipe w.body.1.pipe = 0 ∨ w.body.1.pipe.mWrtask = none := by
  have hd : w.direct = w := by
    unfold Writing.direct
    rw [hr]
  simp only [Writing.body, hd, hr, ReadTask.isTask, Bool.false_eq_true, false_and, if_false]
  unfold Writing.fillBody
  dsimp only
  split_ifs with h1 h2 h3 <;> first
    | exact .inr rfl
    | exact .inl hf
    | skip
  all_goals
    simp only [hf, lt_irrefl, and_false, or_false, Nat.le_zero] at h1
    exact absurd (by simp [Writing.store, List.length_eq_zero_iff.mp h1]) h2

end

/-- Where the running task is in a pass: about to begin one or in its own code, about to test
the ring with interrupts off, or about to trap to `wait(0,-1)`. -/
inductive Stage
  | loop
  | reads
  | writes (interrupt : Bool)
  | waits
  deriving DecidableEq

structure PipeUser (τ ι : Type) where
  kernel : Kernel τ ι
  stage : Stage

/-- What the interrupt handler does may come at any time: `r_any`, which it looks at, knows
nothing of `DISABLE_INTS`, an entry in the shadow of which turns interrupts on again, and the
entry of the trap to `wait(0,-1)` serves interrupts before the trap. -/
inductive PipeUser.Event (τ ι : Type)
  | kernel (e : Kernel.Event τ ι)
  | test
  | block
  deriving DecidableEq

section
variable [DecidableEq τ] [DecidableEq ι]

/-- The running task's pass up to its test. -/
def PipeUser.pass (s : PipeUser τ ι) : PipeUser τ ι :=
  let k := s.kernel
  match (k.tasks k.current).frame with
  | .reading p true _ 0 => { s with kernel := k.leave (.done (k.pipes p).mNread) .own }
  | .reading p _ dst nleft =>
    let (r, o) := (k.reading p dst nleft).body
    { kernel := ((k.setPipe p r.pipe).partner (k.pipes p).mWrtask (.offer r.src) r.wakes).leave
        (o.getD .again) (.reading p false r.dst r.nleft)
      stage := if o = none then .reads else .loop }
  | .writing p _ src =>
    let (r, o) := (k.writing p src).body
    { kernel := ((k.setPipe p r.pipe).partner (k.pipes p).mRdtask.toOption (.want r.dst r.want)
        r.wakes).leave (o.getD .again) (.writing p false r.src)
      stage := if o = none then .writes (k.pipes p).mRdtask.isInterrupt else .loop }
  | .own | .waiting _ => s

/-- The test meets: there is nothing to read, or no room to write. -/
def Kernel.Tests (k : Kernel τ ι) : Stage → Frame ι → Prop
  | .reads, .reading p _ _ _ => (k.pipes p).mHead = (k.pipes p).mTail
  | .writes interrupt, .writing p _ _ => (k.pipes p).Stuck interrupt
  | _, _ => False

instance Kernel.decidableTests (k : Kernel τ ι) :
    (g : Stage) → (f : Frame ι) → Decidable (k.Tests g f)
  | .reads, .reading p _ _ _ =>
    inferInstanceAs (Decidable ((k.pipes p).mHead = (k.pipes p).mTail))
  | .writes interrupt, .writing p _ _ =>
    inferInstanceAs (Decidable ((k.pipes p).Stuck interrupt))
  | .loop, _ | .waits, _ | .reads, .own | .reads, .waiting _ | .reads, .writing .. | .writes _, .own
  | .writes _, .waiting _ | .writes _, .reading .. => .isFalse id

/-- TRAPID_WAIT for no event and without a timeout, out of a loop. -/
def Kernel.block (k : Kernel τ ι) : Kernel τ ι :=
  k.setTask k.current fun t => t.wait 0 (-1) k.milliseconds

def PipeUser.next (s : PipeUser τ ι) : PipeUser.Event τ ι → PipeUser τ ι
  | .kernel .pass => s.pass
  | .kernel e => { s with kernel := s.kernel.next e }
  | .test =>
    { s with
      stage := if s.kernel.Tests s.stage (s.kernel.tasks s.kernel.current).frame then .waits
        else .loop }
  | .block => { kernel := s.kernel.block, stage := .loop }

/-- The rest of a pass, if no interrupt comes in between. -/
def PipeUser.settle (s : PipeUser τ ι) : PipeUser τ ι :=
  if s.stage = .loop then s
  else if (s.next .test).stage = .waits then (s.next .test).next .block
  else s.next .test

/-- Between a pass and the end of its test no other task runs. -/
def PipeUser.Enabled (s : PipeUser τ ι) : PipeUser.Event τ ι → Prop
  | .kernel (.trap tr) => s.stage = .loop ∧ s.kernel.Enabled (.trap tr)
  | .kernel .pass => s.stage = .loop ∧ s.kernel.Enabled .pass
  | .kernel (.schedule t) => s.stage = .loop ∧ s.kernel.Enabled (.schedule t)
  | .kernel (.post _) | .kernel (.push ..) | .kernel (.pop _) | .kernel (.popShort _) => True
  | .test => s.stage ≠ .loop ∧ s.stage ≠ .waits
  | .block => s.stage = .waits

def pipeUser : System (PipeUser τ ι) (PipeUser.Event τ ι) where
  init s := s.kernel.Init ∧ s.stage = .loop ∧
    ∀ p, (s.kernel.pipes p).Unclaimed ∧ (s.kernel.pipes p).Placed
  allowed := PipeUser.Enabled
  next := PipeUser.next

def Frame.readsAt (p : ι) : Frame ι → Bool
  | .reading q .. => q = p
  | .own | .waiting _ | .writing .. => false

def Frame.writesAt (p : ι) : Frame ι → Bool
  | .writing q .. => q = p
  | .own | .waiting _ | .reading .. => false

/-- Between its test and its trap, nothing is stored into the ring that a reader has found
empty, and nothing is taken from the ring that a writer has found full. -/
def PipeUser.Undisturbed (s : PipeUser τ ι) : PipeUser.Event τ ι → Prop
  | .kernel (.push p _) => s.stage = .waits →
      (s.kernel.tasks s.kernel.current).frame.readsAt p →
      (s.kernel.pipes p).mRdtask = .task s.kernel.current →
      ((s.kernel.pipes p).mHead + 1) &&& (s.kernel.pipes p).mMask = (s.kernel.pipes p).mTail
  | .kernel (.pop p) | .kernel (.popShort p) => s.stage = .waits →
      (s.kernel.tasks s.kernel.current).frame.writesAt p →
      (s.kernel.pipes p).mRdtask = .interrupt →
      (s.kernel.pipes p).mWrtask = some s.kernel.current →
      (s.kernel.pipes p).mHead = (s.kernel.pipes p).mTail
  | _ => True

end

/-- A task asleep in `uread_syspipe` sleeps beside an empty pipe, and one asleep in
`uwrite_syspipe` on a pipe that an interrupt drains beside a full one. -/
structure Kernel.Justified (k : Kernel τ ι) : Prop where
  reader {p : ι} {t : τ} {dst : List (BitVec 8)} {n : Nat} :
    (k.pipes p).mRdtask = .task t → (k.tasks t).state = .waiting →
    (k.tasks t).frame = .reading p false dst n → (k.pipes p).mHead = (k.pipes p).mTail
  writer {p : ι} {t : τ} {src : List (BitVec 8)} :
    (k.pipes p).mRdtask = .interrupt → (k.pipes p).mWrtask = some t →
    (k.tasks t).state = .waiting → (k.tasks t).frame = .writing p false src →
    numAvailSyspipe (k.pipes p) = 0

/-- What else it takes: pipes that an interrupt drains have no readers. -/
structure Kernel.Calm (k : Kernel τ ι) : Prop extends k.Justified where
  placed (p : ι) : (k.pipes p).Placed
  drained {p : ι} {t : τ} {f : Bool} {dst : List (BitVec 8)} {n : Nat} :
    (k.tasks t).frame = .reading p f dst n → (k.pipes p).mRdtask.isInterrupt = false

/-- The running task has found nothing to do, if it is about to block. -/
structure PipeUser.Calm (s : PipeUser τ ι) : Prop where
  kernel : s.kernel.Calm
  tests {i : Bool} {p : ι} {f : Bool} {src : List (BitVec 8)} : s.stage = .writes i →
    (s.kernel.tasks s.kernel.current).frame = .writing p f src →
    i = (s.kernel.pipes p).mRdtask.isInterrupt
  reads {p : ι} {f : Bool} {dst : List (BitVec 8)} {n : Nat} : s.stage = .waits →
    (s.kernel.tasks s.kernel.current).frame = .reading p f dst n →
    (s.kernel.pipes p).mRdtask = .task s.kernel.current →
    (s.kernel.pipes p).mHead = (s.kernel.pipes p).mTail
  writes {p : ι} {f : Bool} {src : List (BitVec 8)} : s.stage = .waits →
    (s.kernel.tasks s.kernel.current).frame = .writing p f src →
    (s.kernel.pipes p).mRdtask = .interrupt →
    (s.kernel.pipes p).mWrtask = some s.kernel.current →
    numAvailSyspipe (s.kernel.pipes p) = 0

section
variable [DecidableEq τ] [DecidableEq ι] {k k' : Kernel τ ι} {s : PipeUser τ ι} {p : ι} {t : τ}

/-- `t` is not asleep in a loop, and reads no pipe that an interrupt drains. -/
structure Kernel.AwakeAt (k : Kernel τ ι) (t : τ) : Prop where
  reads {p : ι} {dst : List (BitVec 8)} {n : Nat} :
    (k.tasks t).frame = .reading p false dst n → (k.tasks t).state ≠ .waiting
  writes {p : ι} {src : List (BitVec 8)} :
    (k.tasks t).frame = .writing p false src → (k.tasks t).state ≠ .waiting
  drained {p : ι} {f : Bool} {dst : List (BitVec 8)} {n : Nat} :
    (k.tasks t).frame = .reading p f dst n → (k.pipes p).mRdtask.isInterrupt = false

omit [DecidableEq τ] [DecidableEq ι] in
theorem Kernel.awakeAt_of_not_inPipe (h : (k.tasks t).frame.inPipe = false) : k.AwakeAt t := by
  refine ⟨fun hf => ?_, fun hf => ?_, fun hf => ?_⟩
  all_goals simp [hf, Frame.inPipe] at h

omit [DecidableEq τ] [DecidableEq ι] in
/-- Tasks fall asleep nowhere, and rings change only under tasks that do not sleep. -/
theorem Kernel.Calm.mono (h : k.Calm) (hp : ∀ p, (k'.pipes p).Placed)
    (hf : ∀ t, ((k'.tasks t).frame = (k.tasks t).frame ∧
      ((k'.tasks t).state = .waiting → (k.tasks t).state = .waiting)) ∨ k'.AwakeAt t)
    (hi : ∀ p, (k'.pipes p).mRdtask.isInterrupt → (k.pipes p).mRdtask.isInterrupt)
    (hr : ∀ p t dst n, (k'.pipes p).mRdtask = .task t → (k'.tasks t).state = .waiting →
      (k'.tasks t).frame = .reading p false dst n →
      (k.pipes p).mRdtask = .task t ∧ ((k.pipes p).mHead = (k.pipes p).mTail →
        (k'.pipes p).mHead = (k'.pipes p).mTail))
    (hw : ∀ p t src, (k'.pipes p).mRdtask = .interrupt → (k'.pipes p).mWrtask = some t →
      (k'.tasks t).state = .waiting → (k'.tasks t).frame = .writing p false src →
      (k.pipes p).mWrtask = some t ∧
        (numAvailSyspipe (k.pipes p) = 0 → numAvailSyspipe (k'.pipes p) = 0)) : k'.Calm := by
  refine ⟨⟨fun {p t dst n} hrd hst hfr => ?_, fun {p t src} hrd hwr hst hfr => ?_⟩, hp,
    fun {p t f dst n} hfr => ?_⟩
  · obtain ⟨hrd', he⟩ := hr p t dst n hrd hst hfr
    obtain ⟨hfr', hst'⟩ | hno := hf t
    · exact he (h.reader hrd' (hst' hst) (hfr' ▸ hfr))
    · exact absurd hst (hno.reads hfr)
  · obtain ⟨hwr', he⟩ := hw p t src hrd hwr hst hfr
    have hrd' : (k.pipes p).mRdtask = .interrupt := by
      have := hi p (by rw [hrd]; rfl)
      cases hc : (k.pipes p).mRdtask <;> simp_all [ReadTask.isInterrupt]
    obtain ⟨hfr', hst'⟩ | hno := hf t
    · exact he (h.writer hrd' hwr' (hst' hst) (hfr' ▸ hfr))
    · exact absurd hst (hno.writes hfr)
  · obtain ⟨hfr', -⟩ | hno := hf t
    · have := h.drained (hfr' ▸ hfr)
      by_contra hc
      rw [Bool.not_eq_false] at hc
      rw [hi p hc] at this
      cases this
    · exact hno.drained hfr

omit [DecidableEq ι] in
theorem Kernel.waiting_wake {v : Option τ} (h : ((k.wake v).tasks t).state = .waiting) :
    (k.tasks t).state = .waiting ∧ v ≠ some t := by
  cases v with
  | none => exact ⟨h, by simp⟩
  | some v =>
    by_cases ht : t = v
    · subst ht
      simp [Kernel.wake, Kernel.setTask] at h
    · simp only [Kernel.wake, Kernel.setTask, Function.update_of_ne ht] at h
      exact ⟨h, fun he => ht (Option.some.inj he).symm⟩

/-- The interrupt handler serves a pipe and wakes the task at its other end. -/
theorem Kernel.Calm.serve (h : k.Calm) {q : SysPipe τ} {v : Option τ}
    (hq : q.Placed) (hr : q.mRdtask = (k.pipes p).mRdtask) (hw : q.mWrtask = (k.pipes p).mWrtask)
    (he : (∀ t, (k.pipes p).mRdtask = .task t → v = some t) ∨
      ((k.pipes p).mHead = (k.pipes p).mTail → q.mHead = q.mTail))
    (hf : (∀ t, (k.pipes p).mWrtask = some t → v = some t) ∨
      (numAvailSyspipe (k.pipes p) = 0 → numAvailSyspipe q = 0)) :
    ((k.setPipe p q).wake v).Calm := by
  have hpipes : ((k.setPipe p q).wake v).pipes = Function.update k.pipes p q := by
    rw [pipes_wake]
    rfl
  refine h.mono (fun p' => ?_) (fun t => .inl ⟨frame_wake, fun hst => (waiting_wake hst).1⟩)
    (fun p' => ?_) (fun p' t _ _ hrd hst _ => ?_) (fun p' t _ _ hwr hst _ => ?_)
  · rw [hpipes]
    by_cases hp : p' = p
    · subst hp
      simpa using hq
    · simpa [hp] using h.placed p'
  · rw [hpipes]
    by_cases hp : p' = p
    · subst hp
      simp [hr]
    · simp [hp]
  · rw [hpipes] at hrd ⊢
    by_cases hp : p' = p
    · subst hp
      rw [Function.update_self] at hrd ⊢
      refine ⟨hr ▸ hrd, ?_⟩
      obtain he | he := he
      · exact absurd (he t (hr ▸ hrd)) (waiting_wake hst).2
      · exact he
    · rw [Function.update_of_ne hp] at hrd ⊢
      exact ⟨hrd, fun h => h⟩
  · rw [hpipes] at hwr ⊢
    by_cases hp : p' = p
    · subst hp
      rw [Function.update_self] at hwr ⊢
      refine ⟨hw ▸ hwr, ?_⟩
      obtain hf | hf := hf
      · exact absurd (hf t (hw ▸ hwr)) (waiting_wake hst).2
      · exact hf
    · rw [Function.update_of_ne hp] at hwr ⊢
      exact ⟨hwr, fun h => h⟩

omit [DecidableEq τ] in
/-- `kpush_syspipe` stores the byte and wakes a reader, or finds the ring full. -/
theorem kpush_spec {p : SysPipe τ} {v : BitVec 8} (hp : p.Placed) :
    (kpushSyspipe p v).1.Placed ∧ (kpushSyspipe p v).1.mRdtask = p.mRdtask ∧
    (kpushSyspipe p v).1.mWrtask = p.mWrtask ∧
    ((p.mHead + 1) &&& p.mMask = p.mTail → (kpushSyspipe p v).1.mHead = p.mHead ∧
      (kpushSyspipe p v).1.mTail = p.mTail ∧ (kpushSyspipe p v).1.mMask = p.mMask) ∧
    ((p.mHead + 1) &&& p.mMask ≠ p.mTail →
      ∀ t, p.mRdtask = .task t → (kpushSyspipe p v).2 = some t) := by
  simp only [kpushSyspipe]
  split_ifs with hfull
  · refine ⟨⟨hp.mask, Nat.and_le_right, hp.tail⟩, rfl, rfl, fun h => absurd h hfull,
      fun _ t ht => ?_⟩
    simp [ht]
  · exact ⟨⟨hp.mask, hp.head, hp.tail⟩, rfl, rfl, fun _ => ⟨rfl, rfl, rfl⟩, fun h => absurd h hfull⟩

omit [DecidableEq τ] in
/-- `kpop_syspipe` takes bytes and wakes a writer, or finds the ring empty. -/
theorem kpop_spec {p : SysPipe τ} {n : Nat} (hp : p.Placed) :
    (kpopSyspipe p n).1.Placed ∧ (kpopSyspipe p n).1.mRdtask = p.mRdtask ∧
    (kpopSyspipe p n).1.mWrtask = p.mWrtask ∧
    (p.mHead = p.mTail → kpopSyspipe p n = (p, none)) ∧
    (p.mHead ≠ p.mTail → (kpopSyspipe p n).2 = p.mWrtask) := by
  unfold kpopSyspipe
  split_ifs with he
  · exact ⟨⟨hp.mask, hp.head, Nat.and_le_right⟩, rfl, rfl, fun h => absurd h he, fun _ => rfl⟩
  · exact ⟨hp, rfl, rfl, fun _ => rfl, fun h => absurd h he⟩

theorem Kernel.Calm.push (h : k.Calm) {val : BitVec 8} :
    ((k.setPipe p (kpushSyspipe (k.pipes p) val).1).wake
      (kpushSyspipe (k.pipes p) val).2).Calm := by
  obtain ⟨hq, hr, hw, hfull, hstore⟩ : (kpushSyspipe (k.pipes p) val).1.Placed ∧ _ :=
    kpush_spec (h.placed p)
  refine h.serve hq hr hw ?_ (.inr fun h0 => ?_)
  · by_cases hf : ((k.pipes p).mHead + 1) &&& (k.pipes p).mMask = (k.pipes p).mTail
    · obtain ⟨hh, ht, -⟩ := hfull hf
      exact .inr fun he => by rw [hh, ht, he]
    · exact .inl (hstore hf)
  · obtain ⟨hh, ht, hm⟩ := hfull ((h.placed p).numAvail_eq_zero.mp h0)
    rw [← h0, numAvailSyspipe, numAvailSyspipe, hh, ht, hm]

theorem Kernel.Calm.pop (h : k.Calm) {n : Nat} :
    ((k.setPipe p (kpopSyspipe (k.pipes p) n).1).wake (kpopSyspipe (k.pipes p) n).2).Calm := by
  obtain ⟨hq, hr, hw, hempty, htake⟩ := kpop_spec (n := n) (h.placed p)
  refine h.serve hq hr hw (.inr fun he => by rw [hempty he]; exact he) ?_
  by_cases he : (k.pipes p).mHead = (k.pipes p).mTail
  · exact .inr fun h0 => by rw [hempty he]; exact h0
  · exact .inl fun t ht => by rw [htake he, ht]

omit [DecidableEq τ] [DecidableEq ι] in
theorem Task.waiting_post {t : Task ι} {events ms : Word}
    (h : (t.post events ms).state = .waiting) : t.state = .waiting := by
  have htake : ∀ {u : Task ι}, (u.take events).state = .waiting → u.state = .waiting := by
    intro u hu
    simp only [Task.take] at hu
    split_ifs at hu
    exact hu
  unfold Task.post at h
  split_ifs at h
  · have := htake h
    simp only [Task.expireWrapped] at this
    split_ifs at this <;> exact this
  · have := htake h
    simp only [Task.expire] at this
    split_ifs at this <;> exact this

omit [DecidableEq τ] [DecidableEq ι] in
/-- Rings and their ends stay as they are. -/
theorem Kernel.Calm.tasks (h : k.Calm) (hp : k'.pipes = k.pipes)
    (hf : ∀ t, ((k'.tasks t).frame = (k.tasks t).frame ∧
      ((k'.tasks t).state = .waiting → (k.tasks t).state = .waiting)) ∨ k'.AwakeAt t) :
    k'.Calm := by
  refine h.mono (fun p => hp ▸ h.placed p) hf (fun p => hp ▸ fun h => h)
    (fun p t _ _ hrd _ _ => ?_) (fun p t _ _ hwr _ _ => ?_)
  · rw [hp] at hrd ⊢
    exact ⟨hrd, fun h => h⟩
  · rw [hp] at hwr ⊢
    exact ⟨hwr, fun h => h⟩

/-- A pipe trap: the ring stays as it is, or is emptied when nobody reads; a call that is
accepted has yet to start its loop. -/
theorem Kernel.Calm.enter (h : k.Calm) {a : Reply τ} {frame : Frame ι}
    (hq : a.pipe.Placed)
    (hi : a.pipe.mRdtask.isInterrupt = (k.pipes p).mRdtask.isInterrupt)
    (hfr : (∃ n, frame = .reading p true [] n ∧
      (a.refused = none → a.pipe.mRdtask = .task k.current)) ∨ ∃ src, frame = .writing p true src)
    (hr : ∀ t, a.pipe.mRdtask = .task t → t = k.current ∧ a.refused = none ∨
      (k.pipes p).mRdtask = .task t ∧ ((k.pipes p).mHead = (k.pipes p).mTail →
        a.pipe.mHead = a.pipe.mTail))
    (hw : a.pipe.mRdtask = .interrupt → ∀ t, a.pipe.mWrtask = some t →
      t = k.current ∧ a.refused = none ∨ (k.pipes p).mWrtask = some t ∧
        (numAvailSyspipe (k.pipes p) = 0 → numAvailSyspipe a.pipe = 0)) :
    (k.enter p a frame).Calm := by
  have hcur : (k.enter p a frame).AwakeAt k.current := by
    by_cases ha : a.refused = none
    · have hf : ((k.enter p a frame).tasks k.current).frame = frame := by
        rw [frame_enter_current, if_pos ha]
      obtain ⟨n, rfl, hown⟩ | ⟨src, rfl⟩ := hfr
      · refine ⟨fun h => ?_, fun h => ?_, fun h => ?_⟩
        · cases hf.symm.trans h
        · cases hf.symm.trans h
        · cases hf.symm.trans h
          rw [pipes_enter, Function.update_self, hown ha]
          rfl
      · refine ⟨fun h => ?_, fun h => ?_, fun h => ?_⟩ <;> cases hf.symm.trans h
    · refine awakeAt_of_not_inPipe ?_
      rw [frame_enter_current, if_neg ha]
      rfl
  have hne : ∀ {t}, ((k.enter p a frame).tasks t).state = .waiting →
      (∃ q dst n, ((k.enter p a frame).tasks t).frame = .reading q false dst n) ∨
        (∃ q src, ((k.enter p a frame).tasks t).frame = .writing q false src) →
      t ≠ k.current := by
    rintro t hst hfr rfl
    obtain ⟨_, _, _, hfr⟩ | ⟨_, _, hfr⟩ := hfr
    · exact hcur.reads hfr hst
    · exact hcur.writes hfr hst
  refine h.mono (fun p' => ?_) (fun t => ?_) (fun p' => ?_) (fun p' t dst n hrd hst hfr => ?_)
    (fun p' t src hrd hwr hst hfr => ?_)
  · rw [pipes_enter]
    by_cases hp : p' = p
    · subst hp
      simpa using hq
    · simpa [hp] using h.placed p'
  · by_cases ht : t = k.current
    · subst ht
      exact .inr hcur
    · refine .inl ⟨frame_enter ht, fun hst => ?_⟩
      have := (waiting_wake hst).1
      simpa [Kernel.setTask, Kernel.setPipe, ht] using this
  · rw [pipes_enter]
    by_cases hp : p' = p
    · subst hp
      simp [hi]
    · simp [hp]
  · have hne := hne hst (.inl ⟨_, _, _, hfr⟩)
    rw [pipes_enter] at hrd ⊢
    by_cases hp : p' = p
    · subst hp
      rw [Function.update_self] at hrd ⊢
      obtain ⟨rfl, -⟩ | hold := hr t hrd
      · exact absurd rfl hne
      · exact hold
    · rw [Function.update_of_ne hp] at hrd ⊢
      exact ⟨hrd, fun h => h⟩
  · have hne := hne hst (.inr ⟨_, _, hfr⟩)
    rw [pipes_enter] at hrd hwr ⊢
    by_cases hp : p' = p
    · subst hp
      rw [Function.update_self] at hrd hwr ⊢
      obtain ⟨rfl, -⟩ | hold := hw hrd t hwr
      · exact absurd rfl hne
      · exact hold
    · rw [Function.update_of_ne hp] at hwr ⊢
      exact ⟨hwr, fun h => h⟩

omit [DecidableEq τ] in
theorem kread_ring {q : SysPipe τ} {u : τ} {len : Int} {valid : Bool} (hq : q.Placed) :
    (kreadSyspipe q u len valid).pipe.Placed ∧
    (kreadSyspipe q u len valid).pipe.mRdtask.isInterrupt = q.mRdtask.isInterrupt ∧
    ((kreadSyspipe q u len valid).refused = none →
      (kreadSyspipe q u len valid).pipe.mRdtask = .task u) ∧
    (q.mRdtask ≠ .none → (kreadSyspipe q u len valid).pipe = q) := by
  unfold kreadSyspipe
  split
  next hn =>
    split_ifs
    · exact ⟨⟨hq.mask, hq.head, hq.head⟩, rfl, fun h => (by cases h), fun h => absurd hn h⟩
    · exact ⟨hq, rfl, fun h => (by cases h), fun _ => rfl⟩
    · exact ⟨hq, rfl, fun h => (by cases h), fun _ => rfl⟩
    · dsimp only
      split
      · exact ⟨⟨hq.mask, hq.head, hq.tail⟩, by rw [hn]; rfl, fun _ => rfl, fun h => absurd hn h⟩
      · exact ⟨⟨hq.mask, hq.head, hq.tail⟩, by rw [hn]; rfl, fun _ => rfl, fun h => absurd hn h⟩
  · exact ⟨hq, rfl, fun h => (by cases h), fun _ => rfl⟩

omit [DecidableEq τ] in
theorem kwrite_ring {q : SysPipe τ} {u : τ} {len : Int} {valid : Bool} :
    (kwriteSyspipe q u len valid).pipe.mMask = q.mMask ∧
    (kwriteSyspipe q u len valid).pipe.mHead = q.mHead ∧
    (kwriteSyspipe q u len valid).pipe.mTail = q.mTail ∧
    (kwriteSyspipe q u len valid).pipe.mRdtask = q.mRdtask := by
  unfold kwriteSyspipe
  split
  · split_ifs
    · exact ⟨rfl, rfl, rfl, rfl⟩
    · exact ⟨rfl, rfl, rfl, rfl⟩
    · dsimp only
      split <;> exact ⟨rfl, rfl, rfl, rfl⟩
  · exact ⟨rfl, rfl, rfl, rfl⟩

omit [DecidableEq τ] in
theorem kwrite_placed {q : SysPipe τ} {u : τ} {len : Int} {valid : Bool} (hq : q.Placed) :
    (kwriteSyspipe q u len valid).pipe.Placed := by
  obtain ⟨hm, hh, ht, -⟩ : (kwriteSyspipe q u len valid).pipe.mMask = q.mMask ∧ _ := kwrite_ring
  exact ⟨hm ▸ hq.mask, hh ▸ hm ▸ hq.head, ht ▸ hm ▸ hq.tail⟩

theorem Kernel.Calm.read (h : k.Calm) {len : Int} {valid : Bool} {n : Nat} :
    (k.enter p (kreadSyspipe (k.pipes p) k.current len valid) (.reading p true [] n)).Calm := by
  obtain ⟨hq, hi, hown, hsame⟩ := kread_ring (u := k.current) (h.placed p)
  refine h.enter hq hi (.inl ⟨n, rfl, hown⟩) (fun t ht => ?_) (fun hint t ht => ?_)
  · obtain hold | ⟨rfl, href, -⟩ := kread_ends.1 ht
    · rw [hsame (by rw [hold]; simp)]
      exact .inr ⟨hold, fun h => h⟩
    · exact .inl ⟨rfl, href⟩
  · have hold : (k.pipes p).mRdtask ≠ .none := by
      intro hn
      rw [hint, hn] at hi
      cases hi
    rw [hsame hold] at ht ⊢
    exact .inr ⟨ht, fun h => h⟩

theorem Kernel.Calm.write (h : k.Calm) {len : Int} {valid : Bool} {bytes : List (BitVec 8)} :
    (k.enter p (kwriteSyspipe (k.pipes p) k.current len valid) (.writing p true bytes)).Calm := by
  obtain ⟨hm, hh, ht, hr⟩ := kwrite_ring (q := k.pipes p) (u := k.current)
  refine h.enter (kwrite_placed (h.placed p)) (by rw [hr])
    (.inr ⟨bytes, rfl⟩) (fun t hrd => .inr ⟨hr ▸ hrd, fun he => by rw [hh, ht, he]⟩)
    (fun _ t hwr => ?_)
  obtain hold | ⟨rfl, href⟩ := kwrite_ends.2 hwr
  · refine .inr ⟨hold, fun h0 => ?_⟩
    rw [← h0, numAvailSyspipe, numAvailSyspipe, hm, hh, ht]
  · exact .inl ⟨rfl, href⟩

theorem Kernel.Calm.trap (h : k.Calm) {tr : Trap} : (k.trap tr).Calm := by
  have hset : ∀ f : Task ι → Task ι, (f (k.tasks k.current)).frame.inPipe = false →
      (k.setTask k.current f).Calm := by
    intro f hf
    refine h.tasks rfl fun t => ?_
    by_cases ht : t = k.current
    · subst ht
      refine .inr (awakeAt_of_not_inPipe ?_)
      simpa [Kernel.setTask] using hf
    · exact .inl (by simp [Kernel.setTask, ht])
  cases tr with
  | post events => exact h.tasks rfl fun t => .inl ⟨Task.frame_post, Task.waiting_post⟩
  | yield => exact h.tasks rfl fun t => .inl ⟨rfl, fun h => h⟩
  | read fd dst len =>
    simp only [Kernel.trap]
    split
    · exact hset _ rfl
    · exact h.read
  | write fd src len bytes =>
    simp only [Kernel.trap]
    split
    · exact hset _ rfl
    · exact h.write
  | exit =>
    exact (hset (fun t => { t with state := .exit, frame := .own }) rfl).tasks rfl
      fun t => .inl ⟨rfl, fun h => h⟩
  | wait ilist timeout =>
    exact hset (fun t => { t.wait ilist timeout k.milliseconds with frame := .waiting ilist }) rfl
  | clear mask =>
    exact hset (fun t => { t.clear mask k.milliseconds with frame := .own }) rfl
  | result value => exact hset (fun t => { t with context1 := value, frame := .own }) rfl

/-- A partner that has yet to start its loop stays so; one in its loop is left alone. -/
def Frame.Serves (g : Frame ι → Frame ι) : Prop :=
  ∀ f, g f = f ∨ (∃ p src src', f = .writing p true src ∧ g f = .writing p true src') ∨
    ∃ p dst n dst' n', f = .reading p true dst n ∧ g f = .reading p true dst' n'

omit [DecidableEq ι] in
theorem serves_offer {src : List (BitVec 8)} : Frame.Serves (.offer src : Frame ι → Frame ι) := by
  intro f
  cases f with
  | writing p fresh src' =>
    cases fresh
    · exact .inl rfl
    · exact .inr (.inl ⟨p, src', src, rfl, rfl⟩)
  | _ => exact .inl rfl

omit [DecidableEq ι] in
theorem serves_want {dst : List (BitVec 8)} {n : Nat} :
    Frame.Serves (.want dst n : Frame ι → Frame ι) := by
  intro f
  cases f with
  | reading p fresh dst' n' =>
    cases fresh
    · exact .inl rfl
    · exact .inr (.inr ⟨p, dst', n', dst, n, rfl, rfl⟩)
  | _ => exact .inl rfl

theorem Kernel.not_waiting_passed {q : SysPipe τ} {v : Option τ} {g : Frame ι → Frame ι}
    {wakes : Bool} {o : Outcome} {frame : Frame ι} (hst : (k.tasks k.current).state = .ready)
    (ho : o ≠ .sleeps) :
    ((((k.setPipe p q).partner v g wakes).leave o frame).tasks k.current).state ≠ .waiting := by
  have hc : ((k.setPipe p q).partner v g wakes).current = k.current := current_partner
  have hr : (((k.setPipe p q).partner v g wakes).tasks k.current).state = .ready :=
    partner_ready hst
  rw [Kernel.leave, hc]
  simp only [Kernel.setTask, Function.update_self]
  cases o with
  | sleeps => exact absurd rfl ho
  | again => simp [Task.leave, hr]
  | done n => simp [Task.leave, hr]
  | exits n => simp [Task.leave]

theorem Kernel.waiting_passed {q : SysPipe τ} {v : Option τ} {g : Frame ι → Frame ι}
    {wakes : Bool} {o : Outcome} {frame : Frame ι} (ht : t ≠ k.current)
    (h : ((((k.setPipe p q).partner v g wakes).leave o frame).tasks t).state = .waiting) :
    (k.tasks t).state = .waiting := by
  have hc : ((k.setPipe p q).partner v g wakes).current = k.current := current_partner
  rw [Kernel.leave, hc] at h
  simp only [Kernel.setTask, Function.update_of_ne ht] at h
  cases v with
  | none => exact h
  | some v =>
    by_cases hv : t = v
    · subst hv
      simp only [Kernel.partner, Kernel.setTask, Function.update_self] at h
      cases wakes
      · exact h
      · cases h
    · simp only [Kernel.partner, Kernel.setTask, Function.update_of_ne hv] at h
      exact h

theorem Kernel.current_leave {q : SysPipe τ} {v : Option τ} {g : Frame ι → Frame ι} {wakes : Bool}
    {o : Outcome} {frame : Frame ι} :
    (((k.setPipe p q).partner v g wakes).leave o frame).current = k.current :=
  (current_partner : ((k.setPipe p q).partner v g wakes).current = k.current)

theorem Kernel.frame_current_leave {q : SysPipe τ} {v : Option τ} {g : Frame ι → Frame ι}
    {wakes : Bool} {o : Outcome} {frame : Frame ι} :
    ((((k.setPipe p q).partner v g wakes).leave o frame).tasks k.current).frame = frame ∨
    ((((k.setPipe p q).partner v g wakes).leave o frame).tasks k.current).frame = .own := by
  have hc : ((k.setPipe p q).partner v g wakes).current = k.current := current_partner
  rw [Kernel.leave, hc]
  simp only [Kernel.setTask, Function.update_self]
  cases o with
  | again => exact .inl rfl
  | sleeps => exact .inl rfl
  | done n => exact .inr rfl
  | exits n => exact .inr rfl

/-- A pass of the running task, up to its test. -/
theorem Kernel.Calm.passed (h : k.Calm) {q : SysPipe τ} {v : Option τ} {g : Frame ι → Frame ι}
    {wakes : Bool} {o : Outcome} {frame : Frame ι} (hq : (k.pipes p).Keeps q)
    (hst : (k.tasks k.current).state = .ready) (ho : o ≠ .sleeps) (hg : Frame.Serves g)
    (hcf : ∀ p' f dst n, frame = .reading p' f dst n →
      p' = p ∧ (k.pipes p).mRdtask.isInterrupt = false)
    (hr : ∀ t dst n, q.mRdtask = .task t → (k.tasks t).frame = .reading p false dst n →
      (k.pipes p).mHead = (k.pipes p).mTail → q.mHead = q.mTail)
    (hw : ∀ t, q.mRdtask = .interrupt → q.mWrtask = some t →
      numAvailSyspipe (k.pipes p) = 0 → numAvailSyspipe q = 0) :
    (((k.setPipe p q).partner v g wakes).leave o frame).Calm := by
  have hpipes : (((k.setPipe p q).partner v g wakes).leave o frame).pipes =
      Function.update k.pipes p q := pipes_leave
  have hcur : ((((k.setPipe p q).partner v g wakes).leave o frame).tasks k.current).frame = frame ∨
      ((((k.setPipe p q).partner v g wakes).leave o frame).tasks k.current).frame = .own :=
    frame_current_leave
  have hnot : ((((k.setPipe p q).partner v g wakes).leave o frame).tasks k.current).state ≠
      .waiting := not_waiting_passed hst ho
  have hother : ∀ {t}, t ≠ k.current →
      ((((k.setPipe p q).partner v g wakes).leave o frame).tasks t).frame =
        if v = some t then g (k.tasks t).frame else (k.tasks t).frame :=
    fun ht => frame_passed ht
  have hwait : ∀ {t}, t ≠ k.current →
      ((((k.setPipe p q).partner v g wakes).leave o frame).tasks t).state = .waiting →
      (k.tasks t).state = .waiting := fun ht hs => waiting_passed ht hs
  generalize ((k.setPipe p q).partner v g wakes).leave o frame = k' at *
  have hint : ∀ p', (k'.pipes p').mRdtask.isInterrupt → (k.pipes p').mRdtask.isInterrupt := by
    intro p' hp
    rw [hpipes] at hp
    by_cases hpp : p' = p
    · subst hpp
      rw [Function.update_self] at hp
      exact hq.interrupt hp
    · rwa [Function.update_of_ne hpp] at hp
  have hdrain : ∀ {p'}, (k.pipes p').mRdtask.isInterrupt = false →
      (k'.pipes p').mRdtask.isInterrupt = false := by
    intro p' hd
    by_contra hc
    rw [Bool.not_eq_false] at hc
    cases (hint p' hc).symm.trans hd
  have hawake : k'.AwakeAt k.current := by
    refine ⟨fun _ => hnot, fun _ => hnot, fun {p' f dst n} hfr => ?_⟩
    obtain hc | hc := hcur
    · obtain ⟨rfl, hd⟩ := hcf p' f dst n (hc.symm.trans hfr)
      exact hdrain hd
    · cases hc.symm.trans hfr
  -- of the others only partners that have yet to start their loop have changed
  have hframe : ∀ {t}, t ≠ k.current → (k'.tasks t).frame = (k.tasks t).frame ∨
      (∃ p src src', (k.tasks t).frame = .writing p true src ∧
        (k'.tasks t).frame = .writing p true src') ∨
      ∃ p dst n dst' n', (k.tasks t).frame = .reading p true dst n ∧
        (k'.tasks t).frame = .reading p true dst' n' := by
    intro t ht
    rw [hother ht]
    split_ifs
    · exact hg _
    · exact .inl rfl
  refine h.mono (fun p' => ?_) (fun t => ?_) hint (fun p' t dst n hrd hs hfr => ?_)
    (fun p' t src hrd hwr hs hfr => ?_)
  · rw [hpipes]
    by_cases hp : p' = p
    · subst hp
      simpa using hq.placed (h.placed p')
    · simpa [hp] using h.placed p'
  · by_cases ht : t = k.current
    · subst ht
      exact .inr hawake
    obtain he | ⟨p', src, src', hf, hf'⟩ | ⟨p', dst, n, dst', n', hf, hf'⟩ := hframe ht
    · exact .inl ⟨he, hwait ht⟩
    · refine .inr ⟨fun hc => ?_, fun hc => ?_, fun hc => ?_⟩ <;> cases hf'.symm.trans hc
    · refine .inr ⟨fun hc => ?_, fun hc => ?_, fun hc => ?_⟩ <;> cases hf'.symm.trans hc
      exact hdrain (h.drained hf)
  · have ht : t ≠ k.current := by
      rintro rfl
      exact hnot hs
    have hold : (k.tasks t).frame = .reading p' false dst n := by
      obtain he | ⟨_, _, _, -, hf'⟩ | ⟨_, _, _, _, _, -, hf'⟩ := hframe ht
      · exact he.symm.trans hfr
      · cases hf'.symm.trans hfr
      · cases hf'.symm.trans hfr
    rw [hpipes] at hrd ⊢
    by_cases hp : p' = p
    · subst hp
      rw [Function.update_self] at hrd ⊢
      exact ⟨hq.releases.1 t hrd, hr t dst n hrd hold⟩
    · rw [Function.update_of_ne hp] at hrd ⊢
      exact ⟨hrd, fun h => h⟩
  · rw [hpipes] at hrd hwr ⊢
    by_cases hp : p' = p
    · subst hp
      rw [Function.update_self] at hrd hwr ⊢
      exact ⟨hq.releases.2 t hwr, hw t hrd hwr⟩
    · rw [Function.update_of_ne hp] at hwr ⊢
      exact ⟨hwr, fun h => h⟩

omit [DecidableEq ι] in
theorem Kernel.block_leave {frame : Frame ι} :
    (k.leave .again frame).block = k.leave .sleeps frame := by
  unfold Kernel.block Kernel.leave Kernel.setTask
  simp [Task.leave, Task.wait]

theorem PipeUser.settle_again {g : Stage} {c : Prop} [Decidable c] {frame : Frame ι}
    (hg : g ≠ .loop ∧ g ≠ .waits) (ht : (k.leave .again frame).Tests g frame ↔ c) :
    (PipeUser.settle ⟨k.leave .again frame, g⟩).kernel =
      k.leave (if c then .sleeps else .again) frame := by
  have hframe : ((k.leave .again frame).tasks (k.leave .again frame).current).frame = frame := by
    simp [Kernel.leave, Kernel.setTask, Task.leave]
  simp only [PipeUser.settle, if_neg hg.1, PipeUser.next, hframe]
  by_cases hc : c
  · simp only [if_pos (ht.mpr hc), if_pos hc, if_true]
    exact Kernel.block_leave
  · simp only [if_neg (fun h => hc (ht.mp h)), if_neg hc]
    rfl

/-- Without interrupts in between, a pass is one step of the kernel's. -/
theorem PipeUser.pass_settle (hl : s.stage = .loop) : s.pass.settle.kernel = s.kernel.pass := by
  unfold PipeUser.pass Kernel.pass
  dsimp only
  split
  next p dst hf =>
    simp only [hf]
    simp [PipeUser.settle, hl]
  next p f dst n hn hf =>
    simp only [hf]
    have hpass : s.kernel.readPass p dst n = ((s.kernel.setPipe p
        (s.kernel.reading p dst n).pass.1.pipe).partner (s.kernel.pipes p).mWrtask
        (.offer (s.kernel.reading p dst n).pass.1.src)
        (s.kernel.reading p dst n).pass.1.wakes).leave (s.kernel.reading p dst n).pass.2
        (.reading p false (s.kernel.reading p dst n).pass.1.dst
          (s.kernel.reading p dst n).pass.1.nleft) := rfl
    rw [hpass, reading_pass_body]
    dsimp only
    cases ho : (s.kernel.reading p dst n).body.2 with
    | some o => rfl
    | none =>
      rw [if_pos rfl]
      refine PipeUser.settle_again (g := .reads) (by simp) ?_
      rw [Kernel.Tests, Kernel.pipes_leave, Function.update_self]
  next p f src hf =>
    simp only [hf]
    have hpass : s.kernel.writePass p src = ((s.kernel.setPipe p
        (s.kernel.writing p src).pass.1.pipe).partner (s.kernel.pipes p).mRdtask.toOption
        (.want (s.kernel.writing p src).pass.1.dst (s.kernel.writing p src).pass.1.want)
        (s.kernel.writing p src).pass.1.wakes).leave (s.kernel.writing p src).pass.2
        (.writing p false (s.kernel.writing p src).pass.1.src) := rfl
    rw [hpass, writing_pass_body]
    dsimp only
    cases ho : (s.kernel.writing p src).body.2 with
    | some o => rfl
    | none =>
      rw [if_pos rfl]
      refine PipeUser.settle_again (g := .writes _) (by simp) ?_
      rw [Kernel.Tests, Kernel.pipes_leave, Function.update_self]
      rfl
  · simp [PipeUser.settle, *]
  · simp [PipeUser.settle, *]

omit [DecidableEq τ] [DecidableEq ι] in
theorem getD_again {o : Option Outcome} (h : o ≠ some .sleeps) : o.getD .again ≠ .sleeps := by
  cases o with
  | none => simp
  | some o => simpa using h

theorem PipeUser.Calm.readBody (h : s.Calm) {f : Bool} {dst : List (BitVec 8)} {n : Nat}
    (hst : (s.kernel.tasks s.kernel.current).state = .ready)
    (hf : (s.kernel.tasks s.kernel.current).frame = .reading p f dst n) :
    (((s.kernel.setPipe p (s.kernel.reading p dst n).body.1.pipe).partner
      (s.kernel.pipes p).mWrtask (.offer (s.kernel.reading p dst n).body.1.src)
      (s.kernel.reading p dst n).body.1.wakes).leave
        ((s.kernel.reading p dst n).body.2.getD .again)
        (.reading p false (s.kernel.reading p dst n).body.1.dst
          (s.kernel.reading p dst n).body.1.nleft)).Calm := by
  have hk : (s.kernel.pipes p).Keeps (s.kernel.reading p dst n).body.1.pipe :=
    keeps_reading_body (s := s.kernel.reading p dst n)
  have hd := h.kernel.drained hf
  refine h.kernel.passed hk hst (getD_again reading_body_goes_on) serves_offer
    (fun p' f dst n he => ?_) (fun _ _ _ _ _ he => ?_) (fun _ hi _ _ => ?_)
  · cases he
    exact ⟨rfl, hd⟩
  · exact reading_body_empty (s := s.kernel.reading p dst n) (h.kernel.placed p) he
  · have := hk.interrupt (by rw [hi]; rfl)
    cases this.symm.trans hd

theorem PipeUser.Calm.writeBody (h : s.Calm) {src : List (BitVec 8)}
    (hst : (s.kernel.tasks s.kernel.current).state = .ready) :
    (((s.kernel.setPipe p (s.kernel.writing p src).body.1.pipe).partner
      (s.kernel.pipes p).mRdtask.toOption
      (.want (s.kernel.writing p src).body.1.dst (s.kernel.writing p src).body.1.want)
      (s.kernel.writing p src).body.1.wakes).leave
        ((s.kernel.writing p src).body.2.getD .again)
        (.writing p false (s.kernel.writing p src).body.1.src)).Calm := by
  have hk : (s.kernel.pipes p).Keeps (s.kernel.writing p src).body.1.pipe :=
    keeps_writing_body (w := s.kernel.writing p src)
  refine h.kernel.passed hk hst (getD_again writing_body_goes_on) serves_want
    (fun _ _ _ _ he => by cases he) (fun t dst n hrd hfr _ => ?_) (fun t hi hwr h0 => ?_)
  · -- its registers want nothing, and so the writer has released it
    have hold : (s.kernel.pipes p).mRdtask = .task t := hk.releases.1 t hrd
    have hwant : (s.kernel.writing p src).want = 0 := by
      simp only [Kernel.writing, Kernel.wanted, hold, ReadTask.toOption, Option.map_some,
        Option.getD_some, hfr]
      rfl
    cases (writing_body_unwanted hold hwant).symm.trans hrd
  · have hold : (s.kernel.pipes p).mRdtask = .interrupt := by
      have := hk.interrupt (by rw [hi]; rfl)
      cases hc : (s.kernel.pipes p).mRdtask <;> simp_all [ReadTask.isInterrupt]
    obtain hfull | hnone := writing_body_full (w := s.kernel.writing p src) hold h0
    · exact hfull
    · cases hnone.symm.trans hwr

theorem PipeUser.Calm.pass (h : s.Calm) (hst : (s.kernel.tasks s.kernel.current).state = .ready)
    (hl : s.stage = .loop) : s.pass.Calm := by
  unfold PipeUser.pass
  dsimp only
  split
  next p dst hf =>
    refine ⟨h.kernel.tasks rfl fun t => ?_, ?_, ?_, ?_⟩
    · by_cases ht : t = s.kernel.current
      · subst ht
        refine .inr (Kernel.awakeAt_of_not_inPipe ?_)
        simp [Kernel.leave, Kernel.setTask, Task.leave, Frame.inPipe]
      · exact .inl (by simp [Kernel.leave, Kernel.setTask, ht])
    all_goals simp [hl]
  next p f dst n hf =>
    refine ⟨h.readBody hst hf, ?_, ?_, ?_⟩
    all_goals
      dsimp only
      split_ifs <;> simp
  next p f src hf =>
    refine ⟨h.writeBody hst, fun {i p' f' src'} hstage hfr => ?_, ?_, ?_⟩
    · dsimp only at hstage hfr ⊢
      have hi : (s.kernel.pipes p).mRdtask.isInterrupt = i := by
        split_ifs at hstage
        exact Stage.writes.inj hstage
      rw [Kernel.current_leave] at hfr
      obtain hc | hc := Kernel.frame_current_leave.imp hfr.symm.trans hfr.symm.trans
      · cases hc
        rw [Kernel.pipes_leave, Function.update_self, writing_body_interrupt, ← hi]
        rfl
      · cases hc
    all_goals
      dsimp only
      split_ifs <;> simp
  · exact h
  · exact h

/-- An interrupt serves a pipe under the running task, which may be about to block there. -/
theorem PipeUser.Calm.served (h : s.Calm) {q : SysPipe τ} {v : Option τ}
    (hk : ((s.kernel.setPipe p q).wake v).Calm) (hr : q.mRdtask = (s.kernel.pipes p).mRdtask)
    (hw : q.mWrtask = (s.kernel.pipes p).mWrtask)
    (hreads : s.stage = .waits → (s.kernel.tasks s.kernel.current).frame.readsAt p →
      (s.kernel.pipes p).mRdtask = .task s.kernel.current →
      (s.kernel.pipes p).mHead = (s.kernel.pipes p).mTail → q.mHead = q.mTail)
    (hwrites : s.stage = .waits → (s.kernel.tasks s.kernel.current).frame.writesAt p →
      (s.kernel.pipes p).mRdtask = .interrupt →
      (s.kernel.pipes p).mWrtask = some s.kernel.current →
      numAvailSyspipe (s.kernel.pipes p) = 0 → numAvailSyspipe q = 0) :
    PipeUser.Calm { s with kernel := (s.kernel.setPipe p q).wake v } := by
  have hc : ((s.kernel.setPipe p q).wake v).current = s.kernel.current := by
    cases v <;> rfl
  have hf : (((s.kernel.setPipe p q).wake v).tasks s.kernel.current).frame =
      (s.kernel.tasks s.kernel.current).frame := Kernel.frame_wake
  have hpipes : ((s.kernel.setPipe p q).wake v).pipes = Function.update s.kernel.pipes p q :=
    Kernel.pipes_wake
  refine ⟨hk, fun {i p' f src} hs hfr => ?_, fun {p' f dst n} hs hfr hrd => ?_,
    fun {p' f src} hs hfr hrd hwr => ?_⟩
  all_goals
    dsimp only at hs hfr
    rw [hc, hf] at hfr
    rw [hpipes]
    by_cases hp : p' = p
  · subst hp
    rw [Function.update_self, hr]
    exact h.tests hs hfr
  · rw [Function.update_of_ne hp]
    exact h.tests hs hfr
  · subst hp
    rw [hpipes, hc, Function.update_self, hr] at hrd
    rw [Function.update_self]
    exact hreads hs (by simp [hfr, Frame.readsAt]) hrd (h.reads hs hfr hrd)
  · rw [hpipes, hc, Function.update_of_ne hp] at hrd
    rw [Function.update_of_ne hp]
    exact h.reads hs hfr hrd
  · subst hp
    rw [hpipes, Function.update_self, hr] at hrd
    rw [hpipes, hc, Function.update_self, hw] at hwr
    rw [Function.update_self]
    exact hwrites hs (by simp [hfr, Frame.writesAt]) hrd hwr (h.writes hs hfr hrd hwr)
  · rw [hpipes, Function.update_of_ne hp] at hrd
    rw [hpipes, hc, Function.update_of_ne hp] at hwr
    rw [Function.update_of_ne hp]
    exact h.writes hs hfr hrd hwr

theorem PipeUser.Calm.push (h : s.Calm) {val : BitVec 8}
    (hu : s.Undisturbed (.kernel (.push p val))) : (s.next (.kernel (.push p val))).Calm := by
  obtain ⟨-, hr, hw, hfull, -⟩ := kpush_spec (v := val) (h.kernel.placed p)
  refine h.served (q := (kpushSyspipe (s.kernel.pipes p) val).1) h.kernel.push hr hw
    (fun hs hat hrd he => ?_) (fun _ _ _ _ h0 => ?_)
  · obtain ⟨hh, ht, -⟩ := hfull (hu hs hat hrd)
    rw [hh, ht, he]
  · obtain ⟨hh, ht, hm⟩ := hfull ((h.kernel.placed p).numAvail_eq_zero.mp h0)
    rw [← h0, numAvailSyspipe, numAvailSyspipe, hh, ht, hm]

theorem PipeUser.Calm.pop (h : s.Calm) {n : Nat}
    (hu : s.stage = .waits → (s.kernel.tasks s.kernel.current).frame.writesAt p →
      (s.kernel.pipes p).mRdtask = .interrupt →
      (s.kernel.pipes p).mWrtask = some s.kernel.current →
      (s.kernel.pipes p).mHead = (s.kernel.pipes p).mTail) :
    PipeUser.Calm { s with
      kernel := (s.kernel.setPipe p (kpopSyspipe (s.kernel.pipes p) n).1).wake
        (kpopSyspipe (s.kernel.pipes p) n).2 } := by
  obtain ⟨-, hr, hw, hempty, -⟩ := kpop_spec (n := n) (h.kernel.placed p)
  refine h.served h.kernel.pop hr hw (fun _ _ _ he => ?_) (fun hs hat hrd hwr h0 => ?_)
  · rw [hempty he]
    exact he
  · rw [hempty (hu hs hat hrd hwr)]
    exact h0

theorem PipeUser.Calm.post (h : s.Calm) {events : Word} :
    (s.next (.kernel (.post events))).Calm := by
  refine ⟨h.kernel.tasks rfl fun t => .inl ⟨Task.frame_post, Task.waiting_post⟩,
    fun hs hfr => ?_, fun hs hfr hrd => ?_, fun hs hfr hrd hwr => ?_⟩
  · exact h.tests hs (Task.frame_post.symm.trans hfr)
  · exact h.reads hs (Task.frame_post.symm.trans hfr) hrd
  · exact h.writes hs (Task.frame_post.symm.trans hfr) hrd hwr

theorem PipeUser.Calm.test (h : s.Calm) : (s.next .test).Calm := by
  unfold PipeUser.next
  dsimp only
  split_ifs with ht
  · refine ⟨h.kernel, fun hs => (by cases hs), fun {p f dst n} _ hfr _ => ?_,
      fun {p f src} _ hfr hrd _ => ?_⟩
    · dsimp only at hfr ⊢
      rw [hfr] at ht
      cases hg : s.stage <;> simp only [hg, Kernel.Tests] at ht
      exact ht
    · dsimp only at hfr hrd ⊢
      rw [hfr] at ht
      cases hg : s.stage <;> simp only [hg, Kernel.Tests] at ht
      rw [h.tests hg hfr, hrd] at ht
      exact ht
  · exact ⟨h.kernel, fun hs => (by cases hs), fun hs => (by cases hs), fun hs => (by cases hs)⟩

/-- It blocks beside an empty pipe, or a full one. -/
theorem PipeUser.Calm.block (h : s.Calm) (hs : s.stage = .waits) : (s.next .block).Calm := by
  have hframe : ∀ t, (s.kernel.block.tasks t).frame = (s.kernel.tasks t).frame := by
    intro t
    refine Kernel.frame_setTask ?_
    simp [Task.wait]
  have hstate : ∀ t, t ≠ s.kernel.current →
      (s.kernel.block.tasks t).state = (s.kernel.tasks t).state := by
    intro t ht
    simp [Kernel.block, Kernel.setTask, ht]
  refine ⟨⟨⟨fun {p t dst n} hrd hst hfr => ?_, fun {p t src} hrd hwr hst hfr => ?_⟩,
    h.kernel.placed, fun hfr => h.kernel.drained ((hframe _).symm.trans hfr)⟩, ?_, ?_, ?_⟩
  · by_cases ht : t = s.kernel.current
    · subst ht
      exact h.reads hs ((hframe _).symm.trans hfr) hrd
    · exact h.kernel.reader hrd ((hstate t ht).symm.trans hst) ((hframe _).symm.trans hfr)
  · by_cases ht : t = s.kernel.current
    · subst ht
      exact h.writes hs ((hframe _).symm.trans hfr) hrd hwr
    · exact h.kernel.writer hrd hwr ((hstate t ht).symm.trans hst) ((hframe _).symm.trans hfr)
  all_goals exact fun hs => (by cases hs)

theorem PipeUser.Calm.next (h : s.Calm) {e : PipeUser.Event τ ι} (he : s.Enabled e)
    (hu : s.Undisturbed e) : (s.next e).Calm := by
  have hloop : ∀ {k' : Kernel τ ι}, s.stage = .loop → k'.Calm →
      PipeUser.Calm { s with kernel := k' } := by
    intro k' hl hk
    refine ⟨hk, ?_, ?_, ?_⟩ <;> simp [hl]
  cases e with
  | kernel e =>
    cases e with
    | post events => exact h.post
    | push p val => exact h.push hu
    | pop p => exact h.pop hu
    | popShort p => exact h.pop hu
    | trap tr => exact hloop he.1 h.kernel.trap
    | pass => exact h.pass he.2.1 he.1
    | schedule t => exact hloop he.1 (h.kernel.tasks rfl fun _ => .inl ⟨rfl, fun h => h⟩)
  | test => exact h.test
  | block => exact h.block he

omit [DecidableEq τ] [DecidableEq ι] in
theorem PipeUser.Calm.init (hk : s.kernel.Init) (hs : s.stage = .loop)
    (hp : ∀ p, (s.kernel.pipes p).Placed) : s.Calm := by
  refine ⟨⟨⟨fun _ _ hfr => ?_, fun _ _ _ hfr => ?_⟩, hp, fun hfr => ?_⟩, ?_, ?_, ?_⟩
  · cases (hk.frame _).symm.trans hfr
  · cases (hk.frame _).symm.trans hfr
  · cases (hk.frame _).symm.trans hfr
  all_goals simp [hs]

/-- As long as interrupts leave a ring as its reader or writer has tested it, no task sleeps
beside the data or room that it waits for. -/
theorem asleep_beside_nothing (h : (pipeUser.restrict PipeUser.Undisturbed).Reachable s) :
    s.kernel.Justified := by
  have hcalm : s.Calm := h.invariant
    (fun _ hi => PipeUser.Calm.init hi.1 hi.2.1 fun p => (hi.2.2 p).2)
    (fun _ _ hu ha => hu.next ha.1 ha.2)
  exact hcalm.kernel.toJustified

end

section
variable [DecidableEq τ] [DecidableEq ι]

instance PipeUser.decidableEnabled (s : PipeUser τ ι) :
    (e : PipeUser.Event τ ι) → Decidable (s.Enabled e)
  | .kernel (.trap tr) =>
    inferInstanceAs (Decidable (s.stage = .loop ∧ s.kernel.Enabled (.trap tr)))
  | .kernel .pass => inferInstanceAs (Decidable (s.stage = .loop ∧ s.kernel.Enabled .pass))
  | .kernel (.schedule t) =>
    inferInstanceAs (Decidable (s.stage = .loop ∧ s.kernel.Enabled (.schedule t)))
  | .kernel (.post _) | .kernel (.push ..) | .kernel (.pop _) | .kernel (.popShort _) =>
    .isTrue trivial
  | .test => inferInstanceAs (Decidable (s.stage ≠ .loop ∧ s.stage ≠ .waits))
  | .block => inferInstanceAs (Decidable (s.stage = .waits))

instance PipeUser.decidableUndisturbed (s : PipeUser τ ι) :
    (e : PipeUser.Event τ ι) → Decidable (s.Undisturbed e)
  | .kernel (.push _ _) => inferInstanceAs (Decidable (_ → _ → _ → _))
  | .kernel (.pop _) | .kernel (.popShort _) => inferInstanceAs (Decidable (_ → _ → _ → _ → _))
  | .kernel (.trap _) | .kernel .pass | .kernel (.schedule _) | .kernel (.post _) | .test
  | .block => .isTrue trivial

instance (s : PipeUser τ ι) (e : PipeUser.Event τ ι) : Decidable (pipeUser.allowed s e) :=
  inferInstanceAs (Decidable (s.Enabled e))

instance (s : PipeUser τ ι) (e : PipeUser.Event τ ι) :
    Decidable ((pipeUser.restrict PipeUser.Undisturbed).allowed s e) :=
  inferInstanceAs (Decidable (s.Enabled e ∧ s.Undisturbed e))

end

def startUser : PipeUser TaskName Unit := ⟨startKernel, .loop⟩

theorem init_startUser : pipeUser.init startUser := by
  obtain ⟨⟨hk, hu⟩, -⟩ := init_startCalls
  exact ⟨hk, rfl, fun p => ⟨hu p, ⟨4, rfl⟩, Nat.zero_le 15, Nat.zero_le 15⟩⟩

/-- A reader of two bytes gets one from an interrupt, finds no other, and has yet to block. -/
def readsOne : List (PipeUser.Event TaskName Unit) :=
  [.kernel (.trap .yield), .kernel (.schedule .first), .kernel (readIn 2),
    .kernel (.schedule .idle), .kernel (.push () 1), .kernel (.schedule .first), .kernel .pass,
    .test]

theorem asleep_beside_nothing_readsOne :
    ((readsOne ++ [PipeUser.Event.block]).foldl PipeUser.next startUser).kernel.Justified :=
  asleep_beside_nothing ((System.reachable_init
    (M := pipeUser.restrict PipeUser.Undisturbed) init_startUser).foldl (by decide +kernel))

/-- The other byte comes between the reader's test and its trap. -/
def readsLate : List (PipeUser.Event TaskName Unit) :=
  readsOne ++ [.kernel (.push () 2), .block, .kernel (.schedule .idle)]

theorem readsLate_sleeps_beside_byte : ∃ s : PipeUser TaskName Unit, pipeUser.Reachable s ∧
    (s.kernel.tasks s.kernel.current).state = .ready ∧ s.kernel.needResched = false ∧
    ¬ s.kernel.Justified := by
  refine ⟨readsLate.foldl PipeUser.next startUser,
    (System.reachable_init init_startUser).foldl (by decide +kernel), by decide +kernel,
    by decide +kernel, fun h => ?_⟩
  have hframe : ((readsLate.foldl PipeUser.next startUser).kernel.tasks .first).frame =
      .reading () false [1] 1 := by decide +kernel
  have hempty := h.reader (by decide +kernel) (by decide +kernel) hframe
  exact absurd hempty (by decide +kernel)

end S6Soc.ZipOS
