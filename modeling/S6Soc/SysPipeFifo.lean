import Mathlib
import S6Soc.Clocked
import S6Soc.SysPipe

/-! A pipe between one writing and one reading task: the bytes read are the bytes
written, in order. -/
namespace S6Soc.ZipOS
open Clocked

inductive Side
  | reader
  | writer
  deriving DecidableEq

/-- Where a task is: in its own code, at the start of the copying loop with the trap's
registers untouched, between two passes of the loop, in the loop's `wait(0,-1)`, or gone. -/
inductive Place
  | out
  | entry
  | loop
  | asleep
  | exited
  deriving DecidableEq

/-- The pipe and its two tasks. `busy` is the task that runs: between traps no other task
does. `rdLeft` is what the reader still wants, `rdDst` what this read has stored, `wrSrc`
what the writer has still to write. `handed` are the bytes of the writes accepted,
`returned` those of the reads completed. -/
structure Duo where
  pipe : SysPipe Side
  busy : Option Side
  rdState : SchedState
  rdAt : Place
  rdLeft : Nat
  rdDst : List (BitVec 8)
  wrState : SchedState
  wrAt : Place
  wrSrc : List (BitVec 8)
  handed : List (BitVec 8)
  returned : List (BitVec 8)

inductive Event
  | read (len : Nat)
  | write (bytes : List (BitVec 8))
  | run (side : Side)
  deriving DecidableEq

def Duo.stateOf (x : Duo) : Side → SchedState
  | .reader => x.rdState
  | .writer => x.wrState

def Duo.placeOf (x : Duo) : Side → Place
  | .reader => x.rdAt
  | .writer => x.wrAt

def Duo.wake (x : Duo) : Option Side → Duo
  | some .reader => { x with rdState := .ready }
  | some .writer => { x with wrState := .ready }
  | none => x

/-- TRAPID_READ by the reader. -/
def Duo.read (x : Duo) (len : Nat) : Duo :=
  let r := kreadSyspipe x.pipe .reader len true
  match r.refused with
  | some _ => { x with pipe := r.pipe }
  | none =>
    { x with
      pipe := r.pipe
      rdState := if r.blocks then .waiting else .ready
      rdAt := .entry
      rdLeft := len
      rdDst := [] }.wake r.wakes

/-- TRAPID_WRITE by the writer. -/
def Duo.write (x : Duo) (bytes : List (BitVec 8)) : Duo :=
  let r := kwriteSyspipe x.pipe .writer bytes.length true
  match r.refused with
  | some _ => { x with pipe := r.pipe }
  | none =>
    { x with
      pipe := r.pipe
      wrState := if r.blocks then .waiting else .ready
      wrAt := .entry
      wrSrc := bytes
      handed := x.handed ++ bytes }.wake r.wakes

/-- Where a pass leaves its task, and whether the task keeps running. -/
def Outcome.place : Outcome → Place
  | .again => .loop
  | .sleeps => .asleep
  | .done _ => .out
  | .exits _ => .exited

/-- The reader runs: it returns if the writer has served it, and makes a pass of its loop
otherwise. In `wait(0,-1)` a task's `context[4]` is 0. -/
def Duo.runReader (x : Duo) : Duo :=
  if x.rdAt = .entry ∧ x.rdLeft = 0 then
    { x with rdAt := .out, busy := none, returned := x.returned ++ x.rdDst }
  else
    let served := x.wrAt = .entry
    let (s, o) := Reading.pass ⟨x.pipe, x.rdDst, x.rdLeft, if served then x.wrSrc else [], false⟩
    { x with
      pipe := s.pipe
      busy := if o = .again then some .reader else none
      rdState := if o = .sleeps then .waiting else .ready
      rdAt := o.place
      rdLeft := s.nleft
      rdDst := s.dst
      wrState := if s.wakes then .ready else x.wrState
      wrSrc := if served then s.src else x.wrSrc
      returned := if o.place = .out then x.returned ++ s.dst else x.returned }

/-- The writer runs: a pass of its loop. -/
def Duo.runWriter (x : Duo) : Duo :=
  let served := x.rdAt = .entry
  let (s, o) := Writing.pass ⟨x.pipe, x.wrSrc, x.rdDst, if served then x.rdLeft else 0, false⟩
  { x with
    pipe := s.pipe
    busy := if o = .again then some .writer else none
    wrState := if o = .sleeps then .waiting else .ready
    wrAt := o.place
    wrSrc := s.src
    rdState := if s.wakes then .ready else x.rdState
    rdLeft := if served then s.want else x.rdLeft
    rdDst := if served then s.dst else x.rdDst }

def Duo.next (x : Duo) : Event → Duo
  | .read len => x.read len
  | .write bytes => x.write bytes
  | .run .reader => x.runReader
  | .run .writer => x.runWriter

/-- Traps come from tasks in their own code, passes from tasks in the loops, one byte is
read at a time, and a write hands over at least one. -/
def Enabled (x : Duo) : Event → Prop
  | .read len => len = 1 ∧ x.busy = none ∧ x.rdAt = .out
  | .write bytes => bytes ≠ [] ∧ x.busy = none ∧ x.wrAt = .out
  | .run side => (x.busy = none ∨ x.busy = some side) ∧ x.stateOf side = .ready ∧
      x.placeOf side ≠ .out ∧ x.placeOf side ≠ .exited

instance (x : Duo) : (e : Event) → Decidable (Enabled x e)
  | .read _ => inferInstanceAs (Decidable (_ ∧ _ ∧ _))
  | .write _ => inferInstanceAs (Decidable (_ ∧ _ ∧ _))
  | .run _ => inferInstanceAs (Decidable (_ ∧ _ ∧ _ ∧ _))

/-- A new pipe: `new_syspipe` makes masks `2 ^ k - 1` from `k = 4` on. -/
structure Duo.Init (x : Duo) : Prop where
  mask : ∃ k, 4 ≤ k ∧ x.pipe.mMask = 2 ^ k - 1
  head : x.pipe.mHead = 0
  tail : x.pipe.mTail = 0
  rdtask : x.pipe.mRdtask = .none
  wrtask : x.pipe.mWrtask = none
  error : x.pipe.mError = false
  busy : x.busy = none
  rdState : x.rdState = .ready
  rdAt : x.rdAt = .out
  wrState : x.wrState = .ready
  wrAt : x.wrAt = .out
  wrSrc : x.wrSrc = []
  handed : x.handed = []
  returned : x.returned = []

def duo : System Duo Event where
  init := Duo.Init
  allowed := Enabled
  next := Duo.next

instance (x : Duo) (e : Event) : Decidable (duo.allowed x e) :=
  inferInstanceAs (Decidable (Enabled x e))

/-- No read is accepted while a write is under way and the ring holds bytes. -/
def Separate (x : Duo) : Event → Prop
  | .read _ => x.pipe.mWrtask = none ∨ x.pipe.mHead = x.pipe.mTail
  | _ => True

instance (x : Duo) : (e : Event) → Decidable (Separate x e)
  | .read _ => inferInstanceAs (Decidable (_ ∨ _))
  | .write _ | .run _ => .isTrue trivial

instance (x : Duo) (e : Event) : Decidable ((duo.restrict Separate).allowed x e) :=
  inferInstanceAs (Decidable (Enabled x e ∧ Separate x e))

def newPipe (mMask : Nat) : Duo where
  pipe := ⟨mMask, 0, 0, .none, none, 0, 0, false, fun _ => 0⟩
  busy := none
  rdState := .ready
  rdAt := .out
  rdLeft := 0
  rdDst := []
  wrState := .ready
  wrAt := .out
  wrSrc := []
  handed := []
  returned := []

theorem init_newPipe : duo.init (newPipe 15) where
  mask := ⟨4, by decide, rfl⟩
  head := rfl
  tail := rfl
  rdtask := rfl
  wrtask := rfl
  error := rfl
  busy := rfl
  rdState := rfl
  rdAt := rfl
  wrState := rfl
  wrAt := rfl
  wrSrc := rfl
  handed := rfl
  returned := rfl

structure SysPipe.Wf (p : SysPipe Side) : Prop where
  mask : ∃ k, 4 ≤ k ∧ p.mMask = 2 ^ k - 1
  head : p.mHead ≤ p.mMask
  tail : p.mTail ≤ p.mMask
  error : p.mError = false

def SysPipe.bytes (p : SysPipe Side) : List (BitVec 8) :=
  Ring.contents (p.mMask + 1) p.mBuf p.mTail p.mHead

variable {p : SysPipe Side} {src : List (BitVec 8)} {b : BitVec 8}

theorem SysPipe.Wf.large (h : p.Wf) : 15 ≤ p.mMask := by
  obtain ⟨k, hk, he⟩ := h.mask
  have : 2 ^ 4 ≤ 2 ^ k := Nat.pow_le_pow_right (by omega) hk
  omega

theorem and_mask (h : p.Wf) (n : Nat) : n &&& p.mMask = n % (p.mMask + 1) := by
  obtain ⟨k, -, he⟩ := h.mask
  exact Ring.and_mask ⟨k, he⟩ n

theorem bytes_eq_nil (h : p.Wf) : p.bytes = [] ↔ p.mHead = p.mTail := by
  have := h.head
  have := h.tail
  exact Ring.contents_eq_nil_iff (by omega) (by omega)

theorem numAvail_eq (h : p.Wf) :
    numAvailSyspipe p = p.mMask - Ring.count (p.mMask + 1) p.mTail p.mHead := by
  rw [numAvailSyspipe, and_mask h, Ring.room_eq h.tail h.head]

/-- A read of one byte from a ring that holds some. -/
theorem pass_ring (h : p.Wf) (hn : p.mNread = 0) (he : p.mHead ≠ p.mTail) :
    Reading.pass ⟨p, [], 1, src, false⟩ =
      (⟨{ p with mTail := (p.mTail + 1) % (p.mMask + 1), mNread := 0, mRdtask := .none },
        [p.mBuf p.mTail], 0, src, p.mWrtask.isSome⟩, .done 1) := by
  have hh := h.head
  have ht := h.tail
  have hmod : (if p.mMask ≤ p.mTail then 0 else p.mTail + 1) = (p.mTail + 1) % (p.mMask + 1) := by
    split
    · rw [show p.mTail = p.mMask by omega, Nat.mod_self]
    · rw [Nat.mod_eq_of_lt (by omega)]
  by_cases hw : p.mHead < p.mTail
  · have hm : min (p.mMask + 1 - p.mTail) 1 = 1 := by omega
    simp [Reading.pass, Reading.wrapped, Reading.straight, Reading.copy, Reading.exitCode,
      Reading.finish, hw, hm, hn, hmod, Ring.run]
  · have hm : min (p.mHead - p.mTail) 1 = 1 := by omega
    simp [Reading.pass, Reading.wrapped, Reading.straight, Reading.copy, Reading.exitCode,
      Reading.finish, hw, hm, hn, hmod, Ring.run]

/-- A read of one byte straight from a blocked writer. -/
theorem pass_direct (hn : p.mNread = 0) (he : p.mHead = p.mTail) (ht : p.mTail ≤ p.mMask)
    (hw : p.mWrtask = some .writer) :
    Reading.pass ⟨p, [], 1, b :: src, false⟩ =
      (⟨{ p with
          mNwritten := p.mNwritten + 1
          mNread := 0
          mRdtask := .none
          mWrtask := if src = [] then none else some .writer },
        [b], 0, src, true⟩, .done 1) := by
  simp [Reading.pass, Reading.wrapped, Reading.straight, Reading.copy, Reading.exitCode,
    Reading.direct, Reading.finish, he, hn, hw, Ring.run]
  exact ⟨fun h => by omega, Classical.em _⟩

/-- What is left of `s` after its bytes went to the ring, as far as they fit. -/
structure Filled (s : Writing Side) (r : Writing Side × Outcome) : Prop where
  wf : r.1.pipe.Wf
  rdtask : r.1.pipe.mRdtask = .none
  order : r.1.pipe.bytes ++ r.1.src = s.pipe.bytes ++ s.src
  dst : r.1.dst = s.dst
  want : r.1.want = s.want
  wakes : r.1.wakes = s.wakes
  ends : r.2.place = .out ∧ r.1.src = [] ∧ r.1.pipe.mWrtask = none ∨
    s.src ≠ [] ∧ r.1.pipe.mWrtask = s.pipe.mWrtask ∧
      (r.2 = .again ∨ r.2 = .sleeps ∧ r.1.pipe.mHead ≠ r.1.pipe.mTail)

variable {s : Writing Side} {t : ReadTask Side}

theorem store_spec (h : s.pipe.Wf) (hf : s.src.length ≤ numAvailSyspipe s.pipe) :
    (s.store (numAvailSyspipe s.pipe)).pipe.Wf ∧
      (s.store (numAvailSyspipe s.pipe)).pipe.bytes ++
        (s.store (numAvailSyspipe s.pipe)).src = s.pipe.bytes ++ s.src := by
  have hh := h.head
  have ht := h.tail
  have hc : Ring.count (s.pipe.mMask + 1) s.pipe.mTail s.pipe.mHead < s.pipe.mMask + 1 :=
    Ring.count_lt (by omega)
  rw [numAvail_eq h] at hf ⊢
  simp only [Writing.store]
  generalize hl : min (min (s.pipe.mMask + 1 - s.pipe.mHead) s.src.length)
    (s.pipe.mMask - Ring.count (s.pipe.mMask + 1) s.pipe.mTail s.pipe.mHead) = ln
  have hn : (s.src.take ln).length = ln := by simp; omega
  rw [and_mask h]
  refine ⟨⟨h.mask, ?_, ht, h.error⟩, ?_⟩
  · exact Nat.lt_succ_iff.mp (Nat.mod_lt _ (by omega))
  · have := @Ring.contents_push _ (s.pipe.mMask + 1) s.pipe.mTail s.pipe.mHead s.pipe.mBuf
      (s.src.take ln) (by omega) (by omega) (by omega) (by omega)
    rw [hn] at this
    simp only [SysPipe.bytes]
    rw [this, List.append_assoc, List.take_append_drop]

theorem fill_spec (h : s.pipe.Wf) (hr : s.pipe.mRdtask = .none) (ht : t.isInterrupt = false) :
    Filled s (s.fill t) := by
  have hne : ∀ {l : List (BitVec 8)}, l ≠ [] → 0 < l.length := List.length_pos_iff.mpr
  by_cases hf : s.src.length ≤ numAvailSyspipe s.pipe
  · obtain ⟨hw, ho⟩ := store_spec h hf
    have hd : (s.store (numAvailSyspipe s.pipe)).src.length ≤ s.src.length := by
      simp [Writing.store]
    simp only [Writing.fill, hf, true_or, if_true, ht]
    by_cases he : (s.store (numAvailSyspipe s.pipe)).src = []
    · rw [if_pos he]
      exact ⟨⟨hw.mask, hw.head, hw.tail, hw.error⟩, hr, ho, rfl, rfl, rfl, .inl ⟨rfl, he, rfl⟩⟩
    · have := hne he
      rw [if_neg he, if_pos (by omega)]
      have hs : s.src ≠ [] := fun hs => he (by simp [Writing.store, hs])
      exact ⟨hw, hr, ho, rfl, rfl, rfl, .inr ⟨hs, rfl, .inl rfl⟩⟩
  · have he : s.src ≠ [] := fun he => hf (by simp [he])
    simp only [Writing.fill, hf, ht, false_or, Bool.false_eq_true, false_and, if_false, if_neg he,
      hr, ReadTask.isNone, if_true]
    by_cases hn : numAvailSyspipe s.pipe = 0
    · rw [if_neg (not_not.mpr hn)]
      have := h.large
      have hc := numAvail_eq h
      refine ⟨h, hr, rfl, rfl, rfl, rfl, .inr ⟨he, rfl, .inr ⟨rfl, fun he => ?_⟩⟩⟩
      have hh := h.head
      have ht := h.tail
      have he : s.pipe.mHead = s.pipe.mTail := he
      rw [(Ring.count_eq_zero_iff (by omega) (by omega)).mpr he] at hc
      omega
    · rw [if_pos hn]
      exact ⟨h, hr, rfl, rfl, rfl, rfl, .inr ⟨he, rfl, .inl rfl⟩⟩

theorem pass_none (hr : s.pipe.mRdtask = .none) : s.pass = s.fill .none := by
  simp [Writing.pass, Writing.direct, hr, ReadTask.isTask]

/-- A writer that finds a reader blocked on one byte serves it first. -/
theorem pass_task (h : p.Wf) (hr : p.mRdtask = .task .reader) :
    Filled ⟨{ p with
        mNread := p.mNread + 1
        mNwritten := p.mNwritten + 1
        mRdtask := .none }, src, [b], 0, true⟩ (Writing.pass ⟨p, b :: src, [], 1, false⟩) := by
  have hwf : SysPipe.Wf { p with
      mNread := p.mNread + 1
      mNwritten := p.mNwritten + 1
      mRdtask := .none } := ⟨h.mask, h.head, h.tail, h.error⟩
  by_cases hs : src = []
  · subst hs
    simp only [Writing.pass, Writing.direct, hr, ReadTask.isTask]
    exact ⟨⟨h.mask, h.head, h.tail, h.error⟩, rfl, rfl, rfl, rfl, rfl, .inl ⟨rfl, rfl, rfl⟩⟩
  · have := fill_spec (t := .task .reader) (s := ⟨{ p with
        mNread := p.mNread + 1
        mNwritten := p.mNwritten + 1
        mRdtask := .none }, src, [b], 0, true⟩) hwf rfl rfl
    simpa [Writing.pass, Writing.direct, hr, ReadTask.isTask, hs] using this

theorem pass_served (hr : p.mRdtask = .task .reader) :
    Writing.pass ⟨p, [], [], 1, false⟩ = Writing.finish ⟨p, [], [], 1, false⟩ := by
  cases p
  simp_all [Writing.pass, Writing.direct, ReadTask.isTask]

/-- The reader in its own code, wanting a byte, or with the byte a writer gave it. -/
inductive ReaderIs (x : Duo) : Prop
  | out (place : x.rdAt = .out) (task : x.pipe.mRdtask = .none)
  | wants (place : x.rdAt = .entry) (task : x.pipe.mRdtask = .task .reader) (left : x.rdLeft = 1)
      (dst : x.rdDst = []) (nread : x.pipe.mNread = 0) (partner : x.wrAt = .out ∨ x.wrAt = .entry)
      (blocked : x.rdState ≠ .ready → x.pipe.mHead = x.pipe.mTail)
      (first : x.rdState = .ready → x.wrAt = .entry → x.wrSrc ≠ [] → x.wrState = .waiting)
      (full : x.rdState = .ready → x.pipe.mHead = x.pipe.mTail → x.wrAt = .entry ∧ x.wrSrc ≠ [])
  | served (place : x.rdAt = .entry) (task : x.pipe.mRdtask = .none) (left : x.rdLeft = 0)

/-- The writer in its own code, served by a reader, or with bytes left to write. -/
inductive WriterIs (x : Duo) : Prop
  | out (place : x.wrAt = .out) (task : x.pipe.mWrtask = none) (src : x.wrSrc = [])
  | served (place : x.wrAt = .entry) (task : x.pipe.mWrtask = none) (src : x.wrSrc = [])
  | offers (place : x.wrAt = .entry) (task : x.pipe.mWrtask = some .writer) (src : x.wrSrc ≠ [])
  | loops (place : x.wrAt = .loop) (task : x.pipe.mWrtask = some .writer)
      (busy : x.busy = some .writer)
  | asleep (place : x.wrAt = .asleep) (task : x.pipe.mWrtask = some .writer)
      (state : x.wrState = .waiting) (full : x.pipe.mHead ≠ x.pipe.mTail)

/-- The bytes a read that is under way has got. -/
def Duo.inHand (x : Duo) : List (BitVec 8) := if x.rdAt = .out then [] else x.rdDst

structure Fifo (x : Duo) : Prop where
  wf : x.pipe.Wf
  reader : ReaderIs x
  writer : WriterIs x
  busy : x.busy = none ∨ x.busy = some .writer
  order : x.handed = x.returned ++ (x.inHand ++ (x.pipe.bytes ++ x.wrSrc))

variable {x : Duo} {len : Nat} {bytes : List (BitVec 8)}

theorem Fifo.init (h : x.Init) : Fifo x where
  wf := ⟨h.mask, by simp [h.head], by simp [h.tail], h.error⟩
  reader := .out h.rdAt h.rdtask
  writer := .out h.wrAt h.wrtask h.wrSrc
  busy := .inl h.busy
  order := by
    have : x.pipe.bytes = [] := by
      rw [bytes_eq_nil ⟨h.mask, by simp [h.head], by simp [h.tail], h.error⟩, h.head, h.tail]
    simp [h.handed, h.returned, Duo.inHand, h.rdAt, this, h.wrSrc]

theorem Fifo.isPrefix (h : Fifo x) : x.returned <+: x.handed := ⟨_, h.order.symm⟩

/-- The pipe once the reader owns its read end. -/
def SysPipe.readBy (p : SysPipe Side) : SysPipe Side :=
  { p with mRdtask := .task .reader, mNread := 0 }

theorem read_alone (hr : x.pipe.mRdtask = .none) (he : x.pipe.mError = false)
    (hw : x.pipe.mWrtask = none) : x.read 1 = { x with
      pipe := x.pipe.readBy
      rdState := if x.pipe.mHead = x.pipe.mTail then .waiting else .ready
      rdAt := .entry
      rdLeft := 1
      rdDst := [] } := by
  simp [Duo.read, kreadSyspipe, Duo.wake, SysPipe.readBy, hr, he, hw]

theorem read_met (hr : x.pipe.mRdtask = .none) (he : x.pipe.mError = false)
    (hw : x.pipe.mWrtask = some .writer) : x.read 1 = { x with
      pipe := x.pipe.readBy
      rdState := .waiting
      rdAt := .entry
      rdLeft := 1
      rdDst := []
      wrState := .ready } := by
  simp [Duo.read, kreadSyspipe, Duo.wake, SysPipe.readBy, hr, he, hw]

theorem Fifo.read (h : Fifo x) (he : Enabled x (.read len)) (hs : Separate x (.read len)) :
    Fifo (x.read len) := by
  obtain ⟨rfl, hb, hp⟩ := he
  obtain ⟨-, ht⟩ | ⟨hp', -⟩ | ⟨hp', -⟩ := h.reader
  · have ho := h.order
    simp only [Duo.inHand, hp, if_true, List.nil_append] at ho
    have hwf : x.pipe.readBy.Wf := ⟨h.wf.mask, h.wf.head, h.wf.tail, h.wf.error⟩
    cases hn : x.pipe.mWrtask with
    | none =>
      rw [read_alone ht h.wf.error hn]
      obtain ⟨hw, -, hsrc⟩ | ⟨hw, -, hsrc⟩ | ⟨-, hw, -⟩ | ⟨-, hw, -⟩ | ⟨-, hw, -⟩ := h.writer
      · refine ⟨hwf, .wants rfl rfl rfl rfl rfl (.inl hw) ?_ ?_ ?_, .out hw hn hsrc, .inl hb, ho⟩
        all_goals simp_all [SysPipe.readBy]
      · refine ⟨hwf, .wants rfl rfl rfl rfl rfl (.inr hw) ?_ ?_ ?_, .served hw hn hsrc, .inl hb, ho⟩
        all_goals simp_all [SysPipe.readBy]
      all_goals simp [hn] at hw
    | some w =>
      have hf : x.pipe.mHead = x.pipe.mTail := by simpa [Separate, hn] using hs
      obtain ⟨-, hw, -⟩ | ⟨-, hw, -⟩ | ⟨hw, hn, hsrc⟩ | ⟨-, -, hw⟩ | ⟨-, -, -, hw⟩ := h.writer
      · simp [hn] at hw
      · simp [hn] at hw
      · rw [read_met ht h.wf.error hn]
        exact ⟨hwf, .wants rfl rfl rfl rfl rfl (.inr hw) (fun _ => hf) (by simp) (by simp),
          .offers hw hn hsrc, .inl hb, ho⟩
      · simp [hb] at hw
      · exact absurd hf hw
  · simp [hp] at hp'
  · simp [hp] at hp'

/-- The pipe once the writer owns its write end. -/
def SysPipe.writtenBy (p : SysPipe Side) : SysPipe Side :=
  { p with mWrtask := some .writer, mNwritten := 0 }

theorem write_met (hr : x.pipe.mRdtask = .task .reader) (hw : x.pipe.mWrtask = none)
    (hb : bytes ≠ []) : x.write bytes = { x with
      pipe := x.pipe.writtenBy
      rdState := .ready
      wrState := .waiting
      wrAt := .entry
      wrSrc := bytes
      handed := x.handed ++ bytes } := by
  have : ¬ (bytes.length : Int) ≤ 0 := by simp [hb]
  simp [Duo.write, kwriteSyspipe, Duo.wake, SysPipe.writtenBy, hr, hw, hb]

theorem write_alone (hr : x.pipe.mRdtask = .none) (hw : x.pipe.mWrtask = none)
    (hb : bytes ≠ []) : x.write bytes = { x with
      pipe := x.pipe.writtenBy
      wrState := if (x.pipe.mHead + 1) &&& x.pipe.mMask = x.pipe.mTail then .waiting else .ready
      wrAt := .entry
      wrSrc := bytes
      handed := x.handed ++ bytes } := by
  simp [Duo.write, kwriteSyspipe, Duo.wake, SysPipe.writtenBy, hr, hw, hb]

theorem Fifo.write (h : Fifo x) (he : Enabled x (.write bytes)) : Fifo (x.write bytes) := by
  obtain ⟨hne, hb, hp⟩ := he
  have hwf : x.pipe.writtenBy.Wf := ⟨h.wf.mask, h.wf.head, h.wf.tail, h.wf.error⟩
  obtain ⟨-, hn, hsrc⟩ | ⟨hw, -⟩ | ⟨hw, -⟩ | ⟨hw, -⟩ | ⟨hw, -⟩ := h.writer
  · have ho : x.handed ++ bytes =
        x.returned ++ (x.inHand ++ (x.pipe.writtenBy.bytes ++ bytes)) := by
      rw [h.order, hsrc]
      simp [SysPipe.writtenBy, SysPipe.bytes]
    obtain ⟨hr, ht⟩ | ⟨hr, ht, hl, hd, hm, -, -, -, -⟩ | ⟨hr, ht, hl⟩ := h.reader
    · rw [write_alone ht hn hne]
      exact ⟨hwf, .out hr ht, .offers rfl rfl hne, .inl hb, ho⟩
    · rw [write_met ht hn hne]
      exact ⟨hwf, .wants hr ht hl hd hm (.inr rfl) (by simp) (by simp) (by simp [hne]),
        .offers rfl rfl hne, .inl hb, ho⟩
    · rw [write_alone ht hn hne]
      exact ⟨hwf, .served hr ht hl, .offers rfl rfl hne, .inl hb, ho⟩
  all_goals simp [hp] at hw

theorem bytes_pop (h : p.Wf) (he : p.mHead ≠ p.mTail) : p.bytes =
    p.mBuf p.mTail ::
      Ring.contents (p.mMask + 1) p.mBuf ((p.mTail + 1) % (p.mMask + 1)) p.mHead := by
  have hh := h.head
  have ht := h.tail
  have hc : Ring.count (p.mMask + 1) p.mTail p.mHead ≠ 0 :=
    (Ring.count_eq_zero_iff (by omega) (by omega)).not.mpr he
  rw [SysPipe.bytes, Ring.contents_pop (n := 1) (by omega) (by omega) (by omega) (by omega)]
  simp [Ring.run]

theorem runReader_served (hp : x.rdAt = .entry) (hl : x.rdLeft = 0) : x.runReader =
    { x with rdAt := .out, busy := none, returned := x.returned ++ x.rdDst } :=
  if_pos ⟨hp, hl⟩

theorem runReader_ring (h : x.pipe.Wf) (hl : x.rdLeft = 1) (hd : x.rdDst = [])
    (hn : x.pipe.mNread = 0) (he : x.pipe.mHead ≠ x.pipe.mTail) : x.runReader = { x with
      pipe := { x.pipe with
        mTail := (x.pipe.mTail + 1) % (x.pipe.mMask + 1)
        mNread := 0
        mRdtask := .none }
      busy := none
      rdState := .ready
      rdAt := .out
      rdLeft := 0
      rdDst := [x.pipe.mBuf x.pipe.mTail]
      wrState := if x.pipe.mWrtask.isSome then .ready else x.wrState
      returned := x.returned ++ [x.pipe.mBuf x.pipe.mTail] } := by
  simp [Duo.runReader, hl, hd, pass_ring h hn he, Outcome.place]
  exact fun h h' => absurd h h'

theorem runReader_direct (h : x.pipe.Wf) (hl : x.rdLeft = 1) (hd : x.rdDst = [])
    (hn : x.pipe.mNread = 0) (he : x.pipe.mHead = x.pipe.mTail) (hw : x.wrAt = .entry)
    (ht : x.pipe.mWrtask = some .writer) (hs : x.wrSrc = b :: src) : x.runReader = { x with
      pipe := { x.pipe with
        mNwritten := x.pipe.mNwritten + 1
        mNread := 0
        mRdtask := .none
        mWrtask := if src = [] then none else some .writer }
      busy := none
      rdState := .ready
      rdAt := .out
      rdLeft := 0
      rdDst := [b]
      wrState := .ready
      wrSrc := src
      returned := x.returned ++ [b] } := by
  simp [Duo.runReader, hl, hd, hw, hs, pass_direct hn he h.tail ht, Outcome.place]

theorem Fifo.runReader (h : Fifo x) (he : Enabled x (.run .reader)) : Fifo x.runReader := by
  obtain ⟨hb, hst, hp, -⟩ := he
  obtain ⟨hr, -⟩ | ⟨hr, ht, hl, hd, hm, hw, -, -, hf⟩ | ⟨hr, ht, hl⟩ := h.reader
  · exact absurd hr hp
  · have ho := h.order
    simp only [Duo.inHand, hr, hd, reduceCtorEq, if_false, List.nil_append] at ho
    by_cases hne : x.pipe.mHead = x.pipe.mTail
    · obtain ⟨hw, hs⟩ := hf hst hne
      obtain ⟨hw', -⟩ | ⟨-, -, hs'⟩ | ⟨-, hn, -⟩ | ⟨hw', -⟩ | ⟨hw', -⟩ := h.writer
      · simp [hw] at hw'
      · exact absurd hs' hs
      · obtain ⟨b, src, hs⟩ := List.exists_cons_of_ne_nil hs
        rw [runReader_direct h.wf hl hd hm hne hw hn hs]
        refine ⟨⟨h.wf.mask, h.wf.head, h.wf.tail, h.wf.error⟩, .out rfl rfl, ?_, .inl rfl, ?_⟩
        · by_cases hsrc : src = []
          · exact .served hw (if_pos hsrc) hsrc
          · exact .offers hw (if_neg hsrc) hsrc
        · rw [(bytes_eq_nil h.wf).mpr hne, hs] at ho
          have := (bytes_eq_nil h.wf).mpr hne
          simp_all [Duo.inHand, SysPipe.bytes]
      · simp [hw] at hw'
      · simp [hw] at hw'
    · rw [runReader_ring h.wf hl hd hm hne]
      have := h.wf.tail
      have hlt := Nat.mod_lt (x.pipe.mTail + 1) (Nat.succ_pos x.pipe.mMask)
      refine ⟨⟨h.wf.mask, h.wf.head, Nat.lt_succ_iff.mp hlt, h.wf.error⟩, .out rfl rfl, ?_,
        .inl rfl, ?_⟩
      · obtain ⟨hw, hn, hs⟩ | ⟨hw, hn, hs⟩ | ⟨hw, hn, hs⟩ | ⟨hw', -⟩ | ⟨hw', -⟩ := h.writer
        · exact .out hw hn hs
        · exact .served hw hn hs
        · exact .offers hw hn hs
        all_goals simp [hw'] at hw
      · rw [bytes_pop h.wf hne] at ho
        simp [ho, Duo.inHand, SysPipe.bytes]
  · rw [runReader_served hr hl]
    have hw : WriterIs { x with
        rdAt := .out, busy := none, returned := x.returned ++ x.rdDst } := by
      obtain ⟨hw, hn, hs⟩ | ⟨hw, hn, hs⟩ | ⟨hw, hn, hs⟩ | ⟨-, -, hb'⟩ | ⟨hw, hn, hs, hf⟩ := h.writer
      · exact .out hw hn hs
      · exact .served hw hn hs
      · exact .offers hw hn hs
      · simp [hb'] at hb
      · exact .asleep hw hn hs hf
    refine ⟨h.wf, .out rfl ht, hw, .inl rfl, ?_⟩
    rw [h.order]
    simp [Duo.inHand, hr]

theorem WriterIs.of_filled {r : Writing Side × Outcome} (hf : Filled s r)
    (hw : s.src ≠ [] → s.pipe.mWrtask = some .writer) (hp : x.pipe = r.1.pipe)
    (ha : x.wrAt = r.2.place) (hs : x.wrSrc = r.1.src)
    (hst : x.wrState = if r.2 = .sleeps then .waiting else .ready)
    (hb : x.busy = if r.2 = .again then some .writer else none) : WriterIs x := by
  obtain ⟨ho, hn, ht⟩ | ⟨hn, ht, he | ⟨he, hf⟩⟩ := hf.ends
  · exact .out (by rw [ha, ho]) (by rw [hp, ht]) (by rw [hs, hn])
  · exact .loops (by rw [ha, he, Outcome.place]) (by rw [hp, ht, hw hn]) (by rw [hb, if_pos he])
  · exact .asleep (by rw [ha, he, Outcome.place]) (by rw [hp, ht, hw hn]) (by rw [hst, if_pos he])
      (by rwa [hp])

theorem WriterIs.wrtask (h : WriterIs x) (hs : x.wrSrc ≠ []) :
    x.pipe.mWrtask = some .writer := by
  obtain ⟨-, -, hn⟩ | ⟨-, -, hn⟩ | ⟨-, ht, -⟩ | ⟨-, ht, -⟩ | ⟨-, ht, -⟩ := h
  · exact absurd hn hs
  · exact absurd hn hs
  all_goals exact ht

theorem busy_eq {o : Outcome} : (if o = .again then some Side.writer else none) = none ∨
    (if o = .again then some Side.writer else none) = some .writer := by
  split <;> simp

/-- A pass that leaves the reader as it was. -/
theorem Fifo.runWriter_none (h : Fifo x) (ht : x.pipe.mRdtask = .none)
    (hr : x.rdAt = .out ∨ x.rdAt = .entry ∧ x.rdLeft = 0) : Fifo x.runWriter := by
  have hf := fill_spec (t := .none) (s := ⟨x.pipe, x.wrSrc, x.rdDst,
    if x.rdAt = .entry then x.rdLeft else 0, false⟩) h.wf ht rfl
  rw [← pass_none ht] at hf
  refine ⟨hf.wf, ?_, .of_filled hf h.writer.wrtask rfl rfl rfl rfl rfl, busy_eq, ?_⟩
  · obtain hr | ⟨hr, hl⟩ := hr
    · exact .out hr hf.rdtask
    · exact .served hr hf.rdtask ((if_pos hr).trans (hf.want.trans ((if_pos hr).trans hl)))
  · have ho := hf.order
    have hd := hf.dst
    simp only [Duo.runWriter, Duo.inHand, hd, ite_self]
    rw [ho]
    exact h.order

/-- A pass that serves a blocked reader. -/
theorem Fifo.runWriter_task (h : Fifo x) (hr : x.rdAt = .entry)
    (ht : x.pipe.mRdtask = .task .reader) (hl : x.rdLeft = 1) (hd : x.rdDst = [])
    (he : x.pipe.mHead = x.pipe.mTail) (hs : x.wrSrc = b :: src) : Fifo x.runWriter := by
  have hf : Filled _ (Writing.pass ⟨x.pipe, b :: src, [], 1, false⟩) := pass_task h.wf ht
  have hi : Writing.mk x.pipe x.wrSrc x.rdDst (if x.rdAt = .entry then x.rdLeft else 0) false =
      ⟨x.pipe, b :: src, [], 1, false⟩ := by
    simp [hs, hd, hr, hl]
  rw [← hi] at hf
  have hw : x.pipe.mWrtask = some .writer := h.writer.wrtask (by simp [hs])
  refine ⟨hf.wf, .served hr hf.rdtask ((if_pos hr).trans hf.want),
    .of_filled hf (fun _ => hw) rfl rfl rfl rfl rfl, busy_eq, ?_⟩
  have ho := h.order
  have hn := (bytes_eq_nil h.wf).mpr he
  simp only [Duo.inHand, hr, hd, hn, hs, reduceCtorEq, if_false, List.nil_append] at ho
  have hi : x.runWriter.inHand = [b] :=
    (if_neg (by simp [Duo.runWriter, hr])).trans ((if_pos hr).trans hf.dst)
  have hr : x.runWriter.pipe.bytes ++ x.runWriter.wrSrc = src := by
    refine hf.order.trans ?_
    simp only [SysPipe.bytes] at hn ⊢
    rw [hn, List.nil_append]
  rw [hi, hr]
  exact ho

theorem Fifo.runWriter (h : Fifo x) (he : Enabled x (.run .writer)) : Fifo x.runWriter := by
  obtain ⟨hb, hst, hp, -⟩ := he
  obtain ⟨hr, ht⟩ | ⟨hr, ht, hl, hd, hm, hw, hbl, hfi, hfu⟩ | ⟨hr, ht, hl⟩ := h.reader
  · exact h.runWriter_none ht (.inl hr)
  · have hw : x.wrAt = .entry := hw.resolve_left hp
    cases hs : x.wrSrc with
    | nil =>
      have hrun : x.runWriter = { x with
          pipe := { x.pipe with mWrtask := none }
          busy := none
          wrState := .ready
          wrAt := .out } := by
        simp [Duo.runWriter, hs, hd, hr, hl, pass_served ht, Writing.finish, Outcome.place]
      rw [hrun]
      exact ⟨⟨h.wf.mask, h.wf.head, h.wf.tail, h.wf.error⟩,
        .wants hr ht hl hd hm (.inl rfl) hbl (by simp) fun h₁ h₂ => absurd hs (hfu h₁ h₂).2,
        .out rfl rfl hs, .inl rfl, h.order⟩
    | cons b src =>
      have hne : x.rdState ≠ .ready := fun hrd => by
        have := hfi hrd hw (by simp [hs])
        simp [Duo.stateOf, this] at hst
      exact h.runWriter_task hr ht hl hd (hbl hne) hs
  · exact h.runWriter_none ht (.inr ⟨hr, hl⟩)

theorem Fifo.next {e : Event} (h : Fifo x) (he : Enabled x e) (hs : Separate x e) :
    Fifo (x.next e) := by
  cases e with
  | read len => exact h.read he hs
  | write bytes => exact h.write he
  | run side =>
    cases side
    · exact h.runReader he
    · exact h.runWriter he

/-- As long as no read is accepted while a write is under way and the ring holds bytes, what
the reads return is what was written, in order. -/
theorem returned_isPrefix_handed (h : (duo.restrict Separate).Reachable x) :
    x.returned <+: x.handed :=
  Fifo.isPrefix (h.invariant (fun _ => Fifo.init) fun _ _ hf ha => hf.next ha.1 ha.2)

def readByte : List Event := [.read 1, .run .reader]

/-- A blocked reader meets a write of three bytes, which leaves two in the ring; a full ring
is then drained around its end. -/
def servedEvents : List Event :=
  [.read 1, .write [1, 2, 3], .run .reader, .run .writer] ++ readByte ++ readByte ++
    [.write [4, 5, 6, 7, 8, 9, 10, 11, 12, 13, 14, 15, 16, 17, 18], .run .writer,
      .run .writer] ++ (List.replicate 15 readByte).flatten

theorem returned_isPrefix_handed_served :
    (servedEvents.foldl duo.next (newPipe 15)).returned =
        [1, 2, 3, 4, 5, 6, 7, 8, 9, 10, 11, 12, 13, 14, 15, 16, 17, 18] ∧
      (servedEvents.foldl duo.next (newPipe 15)).returned <+:
        (servedEvents.foldl duo.next (newPipe 15)).handed :=
  ⟨by decide +kernel, returned_isPrefix_handed <| System.Reachable.foldl
    (M := duo.restrict Separate) (System.reachable_init init_newPipe) (by decide +kernel)⟩

/-- A read accepted otherwise gets the first byte the blocked writer has left, past the ring. -/
theorem Fifo.read_overtakes (h : Fifo x) (he : Enabled x (.read 1)) (hs : x.wrSrc = b :: src)
    (hn : ¬ Separate x (.read 1)) : x.pipe.bytes ≠ [] ∧
      (x.read 1).runWriter.runReader.returned = x.returned ++ [b] := by
  obtain ⟨-, hb, hp⟩ := he
  have ht : x.pipe.mRdtask = .none := by
    obtain ⟨-, ht⟩ | ⟨hr, -⟩ | ⟨hr, -⟩ := h.reader
    · exact ht
    · simp [hp] at hr
    · simp [hp] at hr
  have hw := h.writer.wrtask (by simp [hs])
  have hf : Filled _ (Writing.pass ⟨x.pipe.readBy, b :: src, [], 1, false⟩) :=
    pass_task ⟨h.wf.mask, h.wf.head, h.wf.tail, h.wf.error⟩ rfl
  simp only [Separate, not_or] at hn
  refine ⟨(bytes_eq_nil h.wf).not.mpr hn.2, ?_⟩
  rw [read_met ht h.wf.error hw, runReader_served]
  · simp [Duo.runWriter, hs, hf.dst]
  · simp [Duo.runWriter]
  · simp [Duo.runWriter, hs, hf.want]

/-- Fifteen bytes fill a pipe of sixteen cells, and the sixteenth blocks the writer. -/
def blockedEvents : List Event :=
  [.write [1, 2, 3, 4, 5, 6, 7, 8, 9, 10, 11, 12, 13, 14, 15], .run .writer, .write [16],
    .read 1, .run .writer, .run .reader]

theorem blocked_write_overtakes :
    ∃ x, duo.Reachable x ∧ x.returned = [16] ∧ ¬ x.returned <+: x.handed :=
  ⟨blockedEvents.foldl duo.next (newPipe 15),
    (System.reachable_init init_newPipe).foldl (by decide +kernel), by decide +kernel,
    by decide +kernel⟩

end S6Soc.ZipOS
