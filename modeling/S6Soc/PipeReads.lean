import Mathlib
import S6Soc.PipeWakeups
import S6Soc.SysPipeFifo

/-! Reads of any length from a pipe that interrupts and a writing task feed: what a call returns,
and which calls end in one of the debugging exits. -/
namespace S6Soc.ZipOS
open Clocked

/-- A call that has returned `value`: it asked for `asked` bytes, `dst` is what it has stored, and
`due` what it should have. -/
structure Return where
  asked : Nat
  value : Nat
  dst : List (BitVec 8)
  due : List (BitVec 8)
  deriving DecidableEq

def Return.Right (r : Return) : Prop :=
  r.value = r.asked ∧ r.dst = r.due ∧ r.due.length = r.asked

/-- `stage` is the reader's: between its copying and its test of the ring, or between the test
and its trap, interrupts may store bytes. `stream` are the bytes that have left the writer or an
interrupt, in that order, and that no call has returned. -/
structure Feed where
  duo : Duo
  stage : Stage
  asked : Nat
  stream : List (BitVec 8)
  ended : List Return

inductive Feed.Event
  | push (val : BitVec 8)
  | read (len : Nat)
  | write (bytes : List (BitVec 8))
  | run (side : Side)
  | test
  | block
  deriving DecidableEq

/-- The bytes at the front of `src` that are gone from `left`. -/
def takenFrom (src left : List (BitVec 8)) : List (BitVec 8) := src.take (src.length - left.length)

def Feed.push (x : Feed) (val : BitVec 8) : Feed :=
  let (pipe, t) := kpushSyspipe x.duo.pipe val
  { x with
    duo := { x.duo with pipe := pipe }.wake t
    stream := if (x.duo.pipe.mHead + 1) &&& x.duo.pipe.mMask ≠ x.duo.pipe.mTail
      then x.stream ++ [val] else x.stream }

/-- After an overflow, a read is refused with `-EIO` and empties the ring. -/
def Feed.read (x : Feed) (len : Nat) : Feed :=
  let r := kreadSyspipe x.duo.pipe .reader len true
  { x with
    duo := x.duo.read len
    asked := if r.refused = none then len else x.asked
    stream := if r.refused = some (- EIO) then [] else x.stream }

/-- The reader about to make a pass of `uread_syspipe`. -/
def Duo.reading (x : Duo) : Reading Side :=
  ⟨x.pipe, x.rdDst, x.rdLeft, if x.wrAt = .entry then x.wrSrc else [], false⟩

/-- The writer about to make a pass of `uwrite_syspipe`. -/
def Duo.writing (x : Duo) : Writing Side :=
  ⟨x.pipe, x.wrSrc, x.rdDst, if x.rdAt = .entry then x.rdLeft else 0, false⟩

/-- The reader returns if the writer has served it, and copies otherwise. -/
def Feed.runReader (x : Feed) : Feed :=
  if x.duo.rdAt = .entry ∧ x.duo.rdLeft = 0 then
    { x with
      duo := x.duo.runReader
      stream := x.stream.drop x.asked
      ended := x.ended ++ [⟨x.asked, x.duo.pipe.mNread, x.duo.rdDst, x.stream.take x.asked⟩] }
  else
    let (s, o) := x.duo.reading.body
    let src := if x.duo.wrAt = .entry then s.src else x.duo.wrSrc
    let stream := x.stream ++ takenFrom x.duo.wrSrc src
    let duo := { x.duo with
      pipe := s.pipe
      busy := if o.getD .again = .again then some .reader else none
      rdAt := (o.getD .again).place
      rdLeft := s.nleft
      rdDst := s.dst
      wrState := if s.wakes then .ready else x.duo.wrState
      wrSrc := src }
    match o with
    | some (.done n) =>
      { x with
        duo := { duo with returned := duo.returned ++ s.dst }
        stream := stream.drop x.asked
        ended := x.ended ++ [⟨x.asked, n, s.dst, stream.take x.asked⟩] }
    | some _ => { x with duo := duo, stream := stream }
    | none => { x with duo := duo, stage := .reads, stream := stream }

def Feed.runWriter (x : Feed) : Feed :=
  { x with
    duo := x.duo.runWriter
    stream := x.stream ++ takenFrom x.duo.wrSrc x.duo.runWriter.wrSrc }

def Feed.next (x : Feed) : Feed.Event → Feed
  | .push val => x.push val
  | .read len => x.read len
  | .write bytes => { x with duo := x.duo.write bytes }
  | .run .reader => x.runReader
  | .run .writer => x.runWriter
  | .test =>
    { x with stage := if x.duo.pipe.mHead = x.duo.pipe.mTail then .waits else .loop }
  | .block =>
    { x with
      duo := { x.duo with busy := none, rdState := .waiting, rdAt := .asleep }
      stage := .loop }

def Feed.Enabled (x : Feed) : Feed.Event → Prop
  | .push _ => True
  | .read _ => x.duo.busy = none ∧ x.duo.rdAt = .out
  | .write _ => x.duo.busy = none ∧ x.duo.wrAt = .out
  | .run side => x.stage = .loop ∧ (x.duo.busy = none ∨ x.duo.busy = some side) ∧
      x.duo.stateOf side = .ready ∧ x.duo.placeOf side ≠ .out ∧ x.duo.placeOf side ≠ .exited
  | .test => x.stage = .reads
  | .block => x.stage = .waits

/-- A pipe between calls, its ring anywhere in the buffer. -/
structure Feed.Init (x : Feed) : Prop where
  placed : x.duo.pipe.Placed
  rdtask : x.duo.pipe.mRdtask = .none
  wrtask : x.duo.pipe.mWrtask = none
  busy : x.duo.busy = none
  rdAt : x.duo.rdAt = .out
  rdState : x.duo.rdState = .ready
  wrAt : x.duo.wrAt = .out
  wrState : x.duo.wrState = .ready
  stage : x.stage = .loop
  stream : x.stream = x.duo.pipe.bytes
  ended : x.ended = []

def feed : System Feed Feed.Event where
  init := Feed.Init
  allowed := Feed.Enabled
  next := Feed.next

section
variable {p : SysPipe Side} {s r u : Reading Side} {m n ln : Nat}

theorem length_bytes : p.bytes.length = Ring.count (p.mMask + 1) p.mTail p.mHead :=
  Ring.length_contents

theorem length_bytes_eq (hp : p.Placed) : p.bytes.length =
    if p.mTail ≤ p.mHead then p.mHead - p.mTail else p.mHead + (p.mMask + 1) - p.mTail := by
  have := hp.head
  have := hp.tail
  rw [length_bytes, Ring.count_eq (by omega) (by omega)]

/-- `r` is `s` after `n` bytes went from the ring to the reader. -/
structure Reading.Takes (s r : Reading Side) (n : Nat) : Prop where
  placed : r.pipe.Placed
  bytes : r.pipe.bytes = s.pipe.bytes.drop n
  dst : r.dst = s.dst ++ s.pipe.bytes.take n
  nleft : r.nleft + n = s.nleft
  nread : r.pipe.mNread = s.pipe.mNread + n
  src : r.src = s.src
  wrtask : r.pipe.mWrtask = s.pipe.mWrtask

theorem Reading.Takes.trans (h : s.Takes r m) (h' : r.Takes u n) : s.Takes u (m + n) where
  placed := h'.placed
  bytes := by rw [h'.bytes, h.bytes, List.drop_drop]
  dst := by rw [h'.dst, h.dst, h.bytes, List.append_assoc, List.take_add]
  nleft := by
    have := h.nleft
    have := h'.nleft
    omega
  nread := by
    rw [h'.nread, h.nread, Nat.add_assoc]
  src := h'.src.trans h.src
  wrtask := h'.wrtask.trans h.wrtask

theorem takes_zero (hp : s.pipe.Placed) : s.Takes s 0 := ⟨hp, rfl, by simp, rfl, rfl, rfl, rfl⟩

theorem takes_copy (hp : s.pipe.Placed) (hl : ln ≤ s.pipe.bytes.length) (hn : ln ≤ s.nleft)
    (hs : s.pipe.mTail + ln ≤ s.pipe.mMask + 1) : s.Takes (s.copy ln) ln := by
  have hh := hp.head
  have ht := hp.tail
  rw [length_bytes] at hl
  have hpop : Ring.contents (s.pipe.mMask + 1) s.pipe.mBuf s.pipe.mTail s.pipe.mHead = _ :=
    Ring.contents_pop (Nat.lt_succ_of_le ht) (Nat.lt_succ_of_le hh) hl hs
  have hlen : (Ring.run s.pipe.mBuf s.pipe.mTail ln).length = ln := by simp [Ring.run]
  have htail : (if s.pipe.mMask < s.pipe.mTail + ln then 0 else s.pipe.mTail + ln) =
      (s.pipe.mTail + ln) % (s.pipe.mMask + 1) := by
    split_ifs with hm
    · rw [show s.pipe.mTail + ln = s.pipe.mMask + 1 by omega, Nat.mod_self]
    · exact (Nat.mod_eq_of_lt (by omega)).symm
  have hlt : (s.pipe.mTail + ln) % (s.pipe.mMask + 1) ≤ s.pipe.mMask :=
    Nat.lt_succ_iff.mp (Nat.mod_lt _ (Nat.succ_pos _))
  refine ⟨⟨hp.mask, hh, ?_⟩, ?_, ?_, Nat.sub_add_cancel hn, rfl, rfl, rfl⟩
  · simp only [Reading.copy, htail]
    exact hlt
  · simp only [Reading.copy, htail, SysPipe.bytes]
    rw [hpop, List.drop_append_of_le_length hlen.ge, List.drop_of_length_le hlen.le,
      List.nil_append]
  · simp only [Reading.copy, SysPipe.bytes]
    rw [hpop, List.take_append_of_le_length hlen.ge, List.take_of_length_le hlen.le]

theorem wrapped_takes (hp : s.pipe.Placed) : s.Takes (s.wrapped s.pipe.mHead)
    (if s.pipe.mHead < s.pipe.mTail then min (s.pipe.mMask + 1 - s.pipe.mTail) s.nleft else 0) := by
  have hl := length_bytes_eq hp
  have ht := hp.tail
  unfold Reading.wrapped
  split_ifs at hl ⊢
  · omega
  · exact takes_copy hp (by omega) (Nat.min_le_right _ _) (by omega)
  · exact takes_zero hp
  · omega

/-- The ring does not wrap any more, or nothing is left to read. -/
theorem straight_takes (hp : s.pipe.Placed) (hs : s.pipe.mTail ≤ s.pipe.mHead ∨ s.nleft = 0) :
    s.Takes (s.straight s.pipe.mHead) (min s.pipe.bytes.length s.nleft) := by
  have hl := length_bytes_eq hp
  have hh := hp.head
  unfold Reading.straight
  split_ifs with h0
  · have hle := hs.resolve_right h0.ne'
    rw [if_pos hle] at hl
    rw [hl]
    exact takes_copy hp (by omega) (Nat.min_le_right _ _) (by omega)
  · rw [Nat.eq_zero_of_not_pos h0, Nat.min_zero]
    exact takes_zero hp

theorem wrapped_head : (s.wrapped s.pipe.mHead).pipe.mHead = s.pipe.mHead := by
  unfold Reading.wrapped
  split_ifs <;> rfl

/-- Behind the end of the buffer the ring goes on at its beginning. -/
theorem wrapped_straight (hp : s.pipe.Placed) :
    (s.wrapped s.pipe.mHead).pipe.mTail ≤ (s.wrapped s.pipe.mHead).pipe.mHead ∨
      (s.wrapped s.pipe.mHead).nleft = 0 := by
  have ht := hp.tail
  rw [wrapped_head]
  unfold Reading.wrapped
  split_ifs with h
  · rcases Nat.le_total s.nleft (s.pipe.mMask + 1 - s.pipe.mTail) with hl | hl
    · right
      simp only [Reading.copy, Nat.min_eq_right hl, Nat.sub_self]
    · left
      simp only [Reading.copy, Nat.min_eq_left hl]
      rw [if_pos (by omega)]
      exact Nat.zero_le _
  · exact .inl (not_lt.mp h)

theorem drained_takes (hp : s.pipe.Placed) :
    s.Takes s.drained (min s.pipe.bytes.length s.nleft) := by
  have hw := wrapped_takes hp
  have hs := straight_takes hw.placed (wrapped_straight hp)
  rw [wrapped_head] at hs
  have hl := congrArg List.length hw.bytes
  rw [List.length_drop] at hl
  have hn := hw.nleft
  have hlen := length_bytes_eq hp
  have ht := hp.tail
  have hsum : (if s.pipe.mHead < s.pipe.mTail then min (s.pipe.mMask + 1 - s.pipe.mTail) s.nleft
      else 0) + min (s.wrapped s.pipe.mHead).pipe.bytes.length (s.wrapped s.pipe.mHead).nleft =
      min s.pipe.bytes.length s.nleft := by
    rw [hl]
    rcases Nat.lt_or_ge s.pipe.mHead s.pipe.mTail with hlt | hge
    · rw [if_neg hlt.not_ge] at hlen
      rw [if_pos hlt] at hn ⊢
      omega
    · rw [if_neg hge.not_gt] at hn ⊢
      omega
  rw [← hsum]
  exact hw.trans hs

/-- What is left to read after the ring has been looked at is not in the ring. -/
theorem drained_empty (hp : s.pipe.Placed) (hn : s.drained.nleft ≠ 0) :
    s.drained.pipe.bytes = [] := by
  have h := drained_takes hp
  have := h.nleft
  rw [h.bytes, List.drop_eq_nil_iff]
  omega

/-- The call wants one byte in all, or two of which it finds exactly one, those that it has
counted. -/
def Reading.Spared (s : Reading Side) : Prop :=
  s.pipe.mNread + s.nleft ≤ 1 ∨
    s.pipe.mNread + s.nleft = 2 ∧ s.pipe.mNread + min s.pipe.bytes.length s.nleft = 1

theorem exitCode_ne_none : s.exitCode ≠ none ↔ 2 ≤ s.nleft ∨ 2 ≤ s.pipe.mNread := by
  unfold Reading.exitCode
  split_ifs <;> simp <;> omega

/-- The debugging exits spare no other call. -/
theorem quits_iff (hp : s.pipe.Placed) (hn : 0 < s.nleft) : s.Quits ↔ ¬ s.Spared := by
  have hw := wrapped_takes hp
  have hd := drained_takes hp
  have hwl := hw.nleft
  have hwn := hw.nread
  have hdl := hd.nleft
  have hdn := hd.nread
  have hlen := length_bytes_eq hp
  have ht := hp.tail
  rw [Reading.Quits, exitCode_ne_none, exitCode_ne_none, Reading.Spared]
  split_ifs at hwl hwn hlen <;> omega

theorem takenFrom_drop {l : List (BitVec 8)} : takenFrom l (l.drop n) = l.take n := by
  rw [takenFrom, List.length_drop]
  rcases Nat.le_total n l.length with h | h
  · rw [Nat.sub_sub_self h]
  · rw [List.take_of_length_le h, List.take_of_length_le (by omega)]

theorem takenFrom_self {l : List (BitVec 8)} : takenFrom l l = [] := by
  rw [takenFrom, Nat.sub_self, List.take_zero]

/-- `r` is `s` after bytes went from the ring, and then from the writer, to the reader. -/
structure Reading.Gets (s r : Reading Side) : Prop where
  placed : r.pipe.Placed
  order : r.dst ++ r.pipe.bytes = s.dst ++ s.pipe.bytes ++ takenFrom s.src r.src
  nleft : r.dst.length + r.nleft = s.dst.length + s.nleft
  nread : r.pipe.mNread + s.dst.length = s.pipe.mNread + r.dst.length

theorem direct_eq (hw : s.pipe.mWrtask.isSome) : s.direct =
    { pipe := { s.pipe with
        mNwritten := s.pipe.mNwritten + min s.nleft s.src.length
        mNread := s.pipe.mNread + min s.nleft s.src.length
        mWrtask := if (s.src.drop (min s.nleft s.src.length)).length = 0 then none
          else s.pipe.mWrtask }
      dst := s.dst ++ s.src.take (min s.nleft s.src.length)
      nleft := s.nleft - min s.nleft s.src.length
      src := s.src.drop (min s.nleft s.src.length)
      wakes := s.wakes || (s.src.drop (min s.nleft s.src.length)).length == 0 } := if_pos hw

theorem direct_gets (hp : s.pipe.Placed) (he : s.pipe.bytes = []) : s.Gets s.direct := by
  by_cases hw : s.pipe.mWrtask.isSome
  · rw [direct_eq hw]
    have hb : SysPipe.bytes { s.pipe with
        mNwritten := s.pipe.mNwritten + min s.nleft s.src.length
        mNread := s.pipe.mNread + min s.nleft s.src.length
        mWrtask := if (s.src.drop (min s.nleft s.src.length)).length = 0 then none
          else s.pipe.mWrtask } = [] := he
    have hl : (s.src.take (min s.nleft s.src.length)).length = min s.nleft s.src.length := by
      rw [List.length_take]
      omega
    refine ⟨⟨hp.mask, hp.head, hp.tail⟩, ?_, ?_, ?_⟩
    · rw [hb, he, List.append_nil, List.append_nil, takenFrom_drop]
    · dsimp only
      rw [List.length_append, hl]
      omega
    · dsimp only
      rw [List.length_append, hl]
      omega
  · rw [Reading.direct, if_neg hw]
    exact ⟨hp, by rw [takenFrom_self, List.append_nil], rfl, rfl⟩

/-- What a writer in its call has for a pass of the reader. -/
def Reading.offered (s : Reading Side) : List (BitVec 8) :=
  if s.pipe.mWrtask.isSome then s.src else []

theorem direct_nleft : s.direct.nleft = s.nleft - s.offered.length := by
  unfold Reading.direct Reading.offered
  split_ifs
  · dsimp only
    omega
  · rfl

theorem offered_drained : s.drained.offered = s.offered := by
  rw [Reading.offered, Reading.offered, drained_eq.1, drained_eq.2.1]

/-- First the ring, then the writer. -/
theorem served_nleft (hp : s.pipe.Placed) :
    s.served.nleft = s.nleft - s.pipe.bytes.length - s.offered.length := by
  have hd := (drained_takes hp).nleft
  unfold Reading.served
  split_ifs with hz
  · omega
  · rw [direct_nleft, offered_drained]
    omega

theorem served_gets (hp : s.pipe.Placed) : s.Gets s.served := by
  have hd := drained_takes hp
  have hg : s.Gets s.drained := by
    refine ⟨hd.placed, ?_, ?_, ?_⟩
    · rw [hd.src, takenFrom_self, List.append_nil, hd.dst, hd.bytes, List.append_assoc,
        List.take_append_drop]
    · rw [hd.dst, List.length_append, List.length_take]
      have := hd.nleft
      omega
    · rw [hd.dst, hd.nread, List.length_append, List.length_take]
      omega
  unfold Reading.served
  split_ifs with hz
  · exact hg
  · have h := direct_gets hd.placed (drained_empty hp hz)
    refine ⟨h.placed, ?_, h.nleft.trans hg.nleft, ?_⟩
    · rw [h.order, hg.order, hd.src, takenFrom_self, List.append_nil]
    · have := h.nread
      have := hg.nread
      omega

/-- The copying of a pass that runs into no exit. -/
theorem body_served (hq : ¬ s.Quits) : s.body =
    if s.served.nleft = 0 then (s.served.finish.1, some s.served.finish.2)
    else (s.served, none) := by
  obtain ⟨hw, hs⟩ := exitCodes_eq hq
  unfold Reading.body
  simp only [hw]
  rw [Reading.drained] at hs
  simp only [hs]
  rfl

theorem body_quits (hq : s.Quits) : ∃ code, s.body.2 = some (.exits code) := by
  unfold Reading.body
  dsimp only
  rw [Reading.Quits] at hq
  split
  · exact ⟨_, rfl⟩
  · rename_i hw
    obtain ⟨hlt, hc⟩ | ⟨hpos, hc⟩ := hq
    · rw [if_pos hlt] at hw
      exact absurd hw hc
    · obtain ⟨code, hcode⟩ := Option.ne_none_iff_exists'.mp hc
      rw [Reading.drained] at hcode
      rw [if_pos hpos, hcode]
      exact ⟨code, rfl⟩

end

section
variable {p : SysPipe Side} {s r u : Writing Side} {m n : Nat} {d : ReadTask Side}

theorem bytes_store (xs : List (BitVec 8)) (hp : p.Placed)
    (hn : p.bytes.length + xs.length ≤ p.mMask) (hs : p.mHead + xs.length ≤ p.mMask + 1) :
    SysPipe.bytes { p with
      mBuf := Ring.store p.mBuf p.mHead xs
      mHead := (p.mHead + xs.length) &&& p.mMask } = p.bytes ++ xs := by
  rw [hp.and_mask]
  rw [length_bytes] at hn
  exact Ring.contents_push (Nat.lt_succ_of_le hp.tail) (Nat.lt_succ_of_le hp.head)
    (Nat.lt_succ_of_le hn) hs

theorem numAvail_bytes (hp : p.Placed) : numAvailSyspipe p = p.mMask - p.bytes.length := by
  rw [numAvailSyspipe, hp.and_mask, length_bytes, Ring.room_eq hp.tail hp.head]

theorem length_bytes_le : p.bytes.length ≤ p.mMask := by
  rw [length_bytes]
  exact Nat.lt_succ_iff.mp (Ring.count_lt (Nat.succ_pos _))

/-- `r` is `s` after the writer gave `m` bytes to the reader and `n` to the ring. -/
structure Writing.Gives (s r : Writing Side) (m n : Nat) : Prop where
  placed : r.pipe.Placed
  src : r.src = s.src.drop (m + n)
  dst : r.dst = s.dst ++ s.src.take m
  bytes : r.pipe.bytes = s.pipe.bytes ++ (s.src.drop m).take n
  want : r.want + m = s.want
  nread : r.pipe.mNread = s.pipe.mNread + m

theorem gives_zero (hp : s.pipe.Placed) : s.Gives s 0 0 :=
  ⟨hp, rfl, by simp, by simp, rfl, rfl⟩

theorem Writing.Gives.finish (h : s.Gives r m n) : s.Gives r.finish.1 m n :=
  ⟨⟨h.placed.mask, h.placed.head, h.placed.tail⟩, h.src, h.dst, h.bytes, h.want, h.nread⟩

theorem Writing.Gives.trans (h : s.Gives r m 0) (h' : r.Gives u 0 n) : s.Gives u m n where
  placed := h'.placed
  src := by rw [h'.src, h.src, List.drop_drop]; congr 1; omega
  dst := by rw [h'.dst, h.dst, List.take_zero, List.append_nil]
  bytes := by
    rw [h'.bytes, h.bytes, h.src, List.take_zero, List.append_nil, List.drop_zero, Nat.add_zero]
  want := by
    have := h.want
    have := h'.want
    omega
  nread := by rw [h'.nread, h.nread, Nat.add_zero]

theorem store_gives (hp : s.pipe.Placed) :
    ∃ n, s.Gives (s.store (numAvailSyspipe s.pipe)) 0 n := by
  have hh := hp.head
  have hle : s.pipe.bytes.length ≤ s.pipe.mMask := length_bytes_le
  have hav := numAvail_bytes hp
  refine ⟨min (min (s.pipe.mMask + 1 - s.pipe.mHead) s.src.length) (numAvailSyspipe s.pipe),
    keeps_store.placed hp, by rw [Nat.zero_add]; rfl, by simp [Writing.store], ?_, rfl, rfl⟩
  have hl : (s.src.take (min (min (s.pipe.mMask + 1 - s.pipe.mHead) s.src.length)
      (numAvailSyspipe s.pipe))).length =
      min (min (s.pipe.mMask + 1 - s.pipe.mHead) s.src.length) (numAvailSyspipe s.pipe) := by
    rw [List.length_take]
    omega
  have h := bytes_store (s.src.take (min (min (s.pipe.mMask + 1 - s.pipe.mHead) s.src.length)
    (numAvailSyspipe s.pipe))) hp (by omega) (by omega)
  rw [hl] at h
  exact h

theorem fill_gives (hp : s.pipe.Placed) : ∃ n, s.Gives (s.fill d).1 0 n := by
  obtain ⟨n, hn⟩ := store_gives hp
  unfold Writing.fill
  dsimp only
  split_ifs <;> first
    | exact ⟨n, hn.finish⟩
    | exact ⟨n, hn⟩
    | exact ⟨0, (gives_zero hp).finish⟩
    | exact ⟨0, gives_zero hp⟩

theorem writing_direct_gives (hp : s.pipe.Placed) : s.Gives s.direct
    (if s.pipe.mRdtask.isTask then min s.src.length s.want else 0) 0 := by
  cases hr : s.pipe.mRdtask with
  | none =>
    rw [writing_direct_of_not_task (by rw [hr]; rfl)]
    exact gives_zero hp
  | interrupt =>
    rw [writing_direct_of_not_task (by rw [hr]; rfl)]
    exact gives_zero hp
  | task t =>
    simp only [Writing.direct, hr, ReadTask.isTask, if_true]
    refine ⟨⟨hp.mask, hp.head, hp.tail⟩, rfl, rfl, ?_, ?_, rfl⟩
    · simp [SysPipe.bytes]
    · exact Nat.sub_add_cancel (Nat.min_le_right _ _)

/-- A pass of the writer. -/
theorem writing_pass_gives (hp : s.pipe.Placed) : ∃ n, s.Gives s.pass.1
    (if s.pipe.mRdtask.isTask then min s.src.length s.want else 0) n := by
  have hd := writing_direct_gives hp
  by_cases hc : s.pipe.mRdtask.isTask ∧ s.direct.src = []
  · have h : s.pass = s.direct.finish := by
      rw [Writing.pass]
      exact if_pos hc
    rw [h]
    exact ⟨0, hd.finish⟩
  · have h : s.pass = s.direct.fill s.pipe.mRdtask := by
      rw [Writing.pass]
      exact if_neg hc
    obtain ⟨n, hn⟩ := fill_gives (d := s.pipe.mRdtask) hd.placed
    rw [h]
    exact ⟨n, hd.trans hn⟩

end

/-- A pass of `uread_syspipe` runs into no exit, and one of `uwrite_syspipe` gives bytes to a
reader only past an empty ring. -/
def Feed.Meets (x : Feed) : Feed.Event → Prop
  | .run .reader => x.duo.rdAt = .entry ∧ x.duo.rdLeft = 0 ∨ x.duo.reading.Spared
  | .run .writer => x.duo.pipe.mRdtask.isTask → x.duo.rdAt = .entry → 0 < x.duo.rdLeft →
      x.duo.wrSrc ≠ [] → x.duo.pipe.mHead = x.duo.pipe.mTail
  | .push _ | .read _ | .write _ | .test | .block => True

structure Feed.Kept (x : Feed) : Prop where
  placed : x.duo.pipe.Placed
  counts : x.duo.rdAt ≠ .out → x.duo.pipe.mNread = x.duo.rdDst.length ∧
    x.duo.rdDst.length + x.duo.rdLeft = x.asked
  loops : x.duo.rdAt = .loop ∨ x.duo.rdAt = .asleep → 0 < x.duo.rdLeft
  alive : x.duo.rdAt ≠ .exited
  stage : x.stage ≠ .loop → x.duo.rdAt = .loop
  order : x.stream = x.duo.inHand ++ x.duo.pipe.bytes
  ended : ∀ r ∈ x.ended, r.Right

section
variable {x : Feed} {p : SysPipe Side} {val : BitVec 8} {len : Nat} {bytes : List (BitVec 8)}

theorem placed_eq_nil (hp : p.Placed) : p.bytes = [] ↔ p.mHead = p.mTail :=
  Ring.contents_eq_nil_iff (Nat.lt_succ_of_le hp.tail) (Nat.lt_succ_of_le hp.head)

theorem Feed.Kept.init (h : x.Init) : x.Kept where
  placed := h.placed
  counts ho := absurd h.rdAt ho
  loops hl := by simp [h.rdAt] at hl
  alive := by simp [h.rdAt]
  stage hs := absurd h.stage hs
  order := by rw [h.stream, Duo.inHand, if_pos h.rdAt, List.nil_append]
  ended := by simp [h.ended]

/-- The reader's call and the bytes are as they were. -/
theorem Feed.Kept.mono {y : Feed} (h : x.Kept) (hp : y.duo.pipe.Placed)
    (hn : y.duo.pipe.mNread = x.duo.pipe.mNread) (ha : y.duo.rdAt = x.duo.rdAt)
    (hl : y.duo.rdLeft = x.duo.rdLeft) (hd : y.duo.rdDst = x.duo.rdDst)
    (hs : y.stage = x.stage) (hk : y.asked = x.asked) (he : y.ended = x.ended)
    (ho : y.stream = x.duo.inHand ++ y.duo.pipe.bytes) : y.Kept where
  placed := hp
  counts hne := by
    rw [hn, hd, hl, hk]
    exact h.counts (ha ▸ hne)
  loops hlo := hl ▸ h.loops (ha ▸ hlo)
  alive := ha ▸ h.alive
  stage hst := ha ▸ h.stage (hs ▸ hst)
  order := by rw [ho, Duo.inHand, Duo.inHand, ha, hd]
  ended := he ▸ h.ended

theorem wake_eq {y : Duo} {t : Option Side} : (y.wake t).pipe = y.pipe ∧ (y.wake t).rdAt = y.rdAt ∧
    (y.wake t).rdLeft = y.rdLeft ∧ (y.wake t).rdDst = y.rdDst := by
  cases t with
  | none => exact ⟨rfl, rfl, rfl, rfl⟩
  | some s => cases s <;> exact ⟨rfl, rfl, rfl, rfl⟩

theorem bytes_push (val : BitVec 8) (hp : p.Placed) : (kpushSyspipe p val).1.mNread = p.mNread ∧
    (kpushSyspipe p val).1.bytes = if (p.mHead + 1) &&& p.mMask ≠ p.mTail then p.bytes ++ [val]
      else p.bytes := by
  have hh := hp.head
  simp only [kpushSyspipe]
  split_ifs with hf
  · refine ⟨rfl, ?_⟩
    have hlt : p.bytes.length < p.mMask := by
      have := (hp.numAvail_eq_zero).not.mpr hf
      rw [numAvail_bytes hp] at this
      omega
    have hstore := bytes_store [val] hp hlt (by simpa using hh)
    have hbuf : Ring.store p.mBuf p.mHead [val] = Function.update p.mBuf p.mHead val := by
      funext k
      by_cases hk : k = p.mHead
      · subst hk
        have hget : Ring.store p.mBuf p.mHead [val] (p.mHead + 0) = [val][0] :=
          Ring.store_getElem (by simp)
        simpa using hget
      · rw [Function.update_of_ne hk]
        rcases Nat.lt_or_gt_of_ne hk with hlt | hgt
        · exact Ring.store_of_lt hlt
        · exact Ring.store_of_ge (by simpa using hgt)
    rw [hbuf] at hstore
    exact hstore
  · exact ⟨rfl, rfl⟩

theorem Feed.Kept.push (h : x.Kept) : (x.push val).Kept := by
  obtain ⟨hp, -⟩ := kpush_spec (v := val) h.placed
  obtain ⟨hn, hb⟩ := bytes_push val h.placed
  obtain ⟨w₁, w₂, w₃, w₄⟩ := wake_eq
    (y := { x.duo with pipe := (kpushSyspipe x.duo.pipe val).1 })
    (t := (kpushSyspipe x.duo.pipe val).2)
  have ho := h.order
  refine h.mono (y := x.push val) ?_ ?_ ?_ ?_ ?_ rfl rfl rfl ?_
  · simp only [Feed.push, w₁]
    exact hp
  · simp only [Feed.push, w₁]
    exact hn
  · exact w₂
  · exact w₃
  · exact w₄
  · simp only [Feed.push, w₁, hb]
    split_ifs
    · rw [ho, List.append_assoc]
    · exact ho

/-- A read is refused after an overflow, refused otherwise, or begins to count. -/
theorem kread_cases (p : SysPipe Side) (len : Nat) :
    (kreadSyspipe p .reader len true).refused = some (- EIO) ∧
      (kreadSyspipe p .reader len true).pipe = { p with mTail := p.mHead, mError := false } ∨
    (kreadSyspipe p .reader len true).refused ≠ none ∧
      (kreadSyspipe p .reader len true).refused ≠ some (- EIO) ∧
      (kreadSyspipe p .reader len true).pipe = p ∨
    (kreadSyspipe p .reader len true).refused = none ∧ 0 < len ∧
      (kreadSyspipe p .reader len true).pipe =
        { p with mRdtask := .task .reader, mNread := 0 } := by
  unfold kreadSyspipe
  split
  · split_ifs with he hl
    · exact .inl ⟨rfl, rfl⟩
    · exact .inr (.inl ⟨by simp [refuse], by simp [refuse, EFAULT, EIO], rfl⟩)
    · rename_i hv
      cases hv
    · refine .inr (.inr ?_)
      dsimp only
      split <;> exact ⟨rfl, by omega, rfl⟩
  · exact .inr (.inl ⟨by simp [refuse], by simp [refuse, EBUSY, EIO], rfl⟩)

theorem Feed.Kept.read (h : x.Kept) (ho : x.duo.rdAt = .out) : (x.read len).Kept := by
  have hin : x.duo.inHand = [] := if_pos ho
  have hstage : x.stage = .loop := by
    by_contra hs
    rw [h.stage hs] at ho
    cases ho
  obtain ⟨href, hpipe⟩ | ⟨href, hne, hpipe⟩ | ⟨href, hlen, hpipe⟩ :=
    kread_cases x.duo.pipe len
  · -- The ring is emptied.
    have hread : x.read len = { x with
        duo := { x.duo with pipe := { x.duo.pipe with mTail := x.duo.pipe.mHead, mError := false } }
        stream := [] } := by
      simp [Feed.read, Duo.read, href, hpipe]
    have hp : SysPipe.Placed { x.duo.pipe with mTail := x.duo.pipe.mHead, mError := false } :=
      ⟨h.placed.mask, h.placed.head, h.placed.head⟩
    rw [hread]
    refine h.mono hp rfl rfl rfl rfl rfl rfl rfl ?_
    rw [hin, (placed_eq_nil hp).mpr rfl, List.nil_append]
  · have hread : x.read len = x := by
      cases hr : (kreadSyspipe x.duo.pipe .reader len true).refused with
      | none => exact absurd hr href
      | some e =>
        rw [hr] at hne
        simp [Feed.read, Duo.read, hr, hpipe, hne]
    rw [hread]
    exact h
  · obtain ⟨w₁, w₂, w₃, w₄⟩ := wake_eq (t := (kreadSyspipe x.duo.pipe .reader len true).wakes)
      (y := { x.duo with
        pipe := (kreadSyspipe x.duo.pipe .reader len true).pipe
        rdState := if (kreadSyspipe x.duo.pipe .reader len true).blocks then .waiting else .ready
        rdAt := .entry
        rdLeft := len
        rdDst := [] })
    have hduo : (x.read len).duo = ({ x.duo with
        pipe := (kreadSyspipe x.duo.pipe .reader len true).pipe
        rdState := if (kreadSyspipe x.duo.pipe .reader len true).blocks then .waiting else .ready
        rdAt := .entry
        rdLeft := len
        rdDst := [] }.wake (kreadSyspipe x.duo.pipe .reader len true).wakes) := by
      simp [Feed.read, Duo.read, href]
    have hstream : (x.read len).stream = x.stream := by simp [Feed.read, href]
    have hasked : (x.read len).asked = len := by simp [Feed.read, href]
    replace w₁ := w₁.trans hpipe
    refine ⟨?_, fun _ => ?_, fun hl => ?_, ?_, fun hs => absurd hstage hs, ?_, h.ended⟩
    · rw [hduo, w₁]
      exact ⟨h.placed.mask, h.placed.head, h.placed.tail⟩
    · rw [hduo, w₁, w₃, w₄, hasked]
      exact ⟨rfl, Nat.zero_add _⟩
    · rw [hduo, w₂] at hl
      simp at hl
    · rw [hduo, w₂]
      simp
    · rw [hstream, h.order, hin, hduo, Duo.inHand, w₂, w₄, w₁]
      rfl

theorem Feed.Kept.write (h : x.Kept) :
    Feed.Kept { x with duo := x.duo.write bytes } := by
  have hp : (kwriteSyspipe x.duo.pipe .writer bytes.length true).pipe.Placed :=
    kwrite_placed h.placed
  have hk : (kwriteSyspipe x.duo.pipe .writer bytes.length true).pipe.mNread =
      x.duo.pipe.mNread ∧ (kwriteSyspipe x.duo.pipe .writer bytes.length true).pipe.bytes =
      x.duo.pipe.bytes := by
    unfold kwriteSyspipe
    split
    · split_ifs
      · exact ⟨rfl, rfl⟩
      · exact ⟨rfl, rfl⟩
      · dsimp only
        split <;> exact ⟨rfl, rfl⟩
    · exact ⟨rfl, rfl⟩
  have ho := h.order
  unfold Duo.write
  dsimp only
  split
  · refine h.mono hp hk.1 rfl rfl rfl rfl rfl rfl ?_
    rw [hk.2, ho]
  · obtain ⟨w₁, w₂, w₃, w₄⟩ := wake_eq
      (t := (kwriteSyspipe x.duo.pipe .writer bytes.length true).wakes)
      (y := { x.duo with
        pipe := (kwriteSyspipe x.duo.pipe .writer bytes.length true).pipe
        wrState := if (kwriteSyspipe x.duo.pipe .writer bytes.length true).blocks then .waiting
          else .ready
        wrAt := .entry
        wrSrc := bytes
        handed := x.duo.handed ++ bytes })
    refine h.mono ?_ ?_ w₂ w₃ w₄ rfl rfl rfl ?_
    · rw [w₁]
      exact hp
    · rw [w₁]
      exact hk.1
    · rw [w₁, hk.2, ho]

/-- Bytes that go straight to a reader find the ring empty. -/
theorem Feed.Kept.runWriter (h : x.Kept) (hm : x.Meets (.run .writer)) : x.runWriter.Kept := by
  obtain ⟨n, hg⟩ := writing_pass_gives (s := x.duo.writing) h.placed
  generalize hk : (if x.duo.writing.pipe.mRdtask.isTask then
    min x.duo.writing.src.length x.duo.writing.want else 0) = m at hg
  have hle : m ≤ x.duo.wrSrc.length := by
    rw [← hk]
    split_ifs
    · exact Nat.min_le_left _ _
    · exact Nat.zero_le _
  have hpipe : x.duo.runWriter.pipe = x.duo.writing.pass.1.pipe := rfl
  have hsrc : x.duo.runWriter.wrSrc = x.duo.wrSrc.drop (m + n) := hg.src
  have hempty : 0 < m → x.duo.rdAt = .entry ∧ x.duo.pipe.bytes = [] := by
    intro hpos
    split_ifs at hk with ht
    · have he : x.duo.rdAt = .entry := by
        by_contra hne
        have : x.duo.writing.want = 0 := if_neg hne
        omega
      have hw : x.duo.writing.want = x.duo.rdLeft := if_pos he
      refine ⟨he, (placed_eq_nil h.placed).mpr (hm ht he (by omega) fun h0 => ?_)⟩
      have : x.duo.writing.src.length = 0 := congrArg List.length h0
      omega
    · omega
  have hbytes : x.stream ++ takenFrom x.duo.wrSrc x.duo.runWriter.wrSrc = x.duo.inHand ++
      x.duo.pipe.bytes ++ (x.duo.wrSrc.take m ++ (x.duo.wrSrc.drop m).take n) := by
    rw [hsrc, takenFrom_drop, h.order, List.take_add]
  have hring : x.duo.runWriter.pipe.bytes =
      x.duo.pipe.bytes ++ (x.duo.wrSrc.drop m).take n := hg.bytes
  by_cases he : x.duo.rdAt = .entry
  · have hdst : x.duo.runWriter.rdDst = x.duo.rdDst ++ x.duo.wrSrc.take m :=
      (if_pos he).trans hg.dst
    have hleft : x.duo.runWriter.rdLeft + m = x.duo.rdLeft := by
      have hw := hg.want
      have h0 : x.duo.writing.want = x.duo.rdLeft := if_pos he
      have h1 : x.duo.runWriter.rdLeft = x.duo.writing.pass.1.want := if_pos he
      omega
    have hin : x.duo.inHand = x.duo.rdDst := if_neg (by rw [he]; simp)
    obtain ⟨hc, ha⟩ := h.counts (by rw [he]; simp)
    have hlen : x.duo.runWriter.rdDst.length = x.duo.rdDst.length + m := by
      rw [hdst, List.length_append, List.length_take]
      omega
    refine ⟨hpipe ▸ hg.placed, fun _ => ⟨?_, ?_⟩, fun hl => ?_, h.alive, h.stage, ?_, h.ended⟩
    · have hn : x.duo.runWriter.pipe.mNread = x.duo.pipe.mNread + m := hg.nread
      change x.duo.runWriter.pipe.mNread = x.duo.runWriter.rdDst.length
      omega
    · change x.duo.runWriter.rdDst.length + x.duo.runWriter.rdLeft = x.asked
      omega
    · have hl : x.duo.rdAt = .loop ∨ x.duo.rdAt = .asleep := hl
      simp [he] at hl
    · have hin' : x.duo.runWriter.inHand = x.duo.runWriter.rdDst :=
        if_neg (by change x.duo.rdAt ≠ _; rw [he]; simp)
      change x.stream ++ takenFrom x.duo.wrSrc x.duo.runWriter.wrSrc =
        x.duo.runWriter.inHand ++ x.duo.runWriter.pipe.bytes
      rw [hbytes, hin', hring, hdst, hin]
      rcases Nat.eq_zero_or_pos m with h0 | hpos
      · simp [h0]
      · simp [(hempty hpos).2]
  · have h0 : m = 0 := Nat.eq_zero_of_not_pos fun hpos => he (hempty hpos).1
    refine h.mono (hpipe ▸ hg.placed) ?_ rfl (if_neg he) (if_neg he) rfl rfl rfl ?_
    · have hn : x.duo.runWriter.pipe.mNread = x.duo.pipe.mNread + m := hg.nread
      rw [h0] at hn
      exact hn
    · refine hbytes.trans ?_
      change _ = x.duo.inHand ++ x.duo.runWriter.pipe.bytes
      rw [hring, h0]
      simp

theorem reading_taken {r : List (BitVec 8)}
    (hr : x.duo.wrAt ≠ .entry → r = []) :
    takenFrom x.duo.wrSrc (if x.duo.wrAt = .entry then r else x.duo.wrSrc) =
      takenFrom x.duo.reading.src r := by
  unfold Duo.reading
  split_ifs with he
  · rfl
  · rw [hr he, takenFrom_self, takenFrom_self]

/-- The reader has stored all it wants: it returns that many bytes, the next ones. -/
theorem Return.right_of_full {asked value : Nat} {dst rest stream : List (BitVec 8)}
    (hs : stream = dst ++ rest) (hl : dst.length = asked) (hv : value = dst.length) :
    Return.Right ⟨asked, value, dst, stream.take asked⟩ ∧ stream.drop asked = rest := by
  subst hs
  rw [← hl]
  refine ⟨⟨hv, ?_, ?_⟩, List.drop_left⟩
  · exact List.take_left.symm
  · simp

theorem Feed.Kept.left_pos (h : x.Kept) (he : x.Enabled (.run .reader))
    (hs : ¬ (x.duo.rdAt = .entry ∧ x.duo.rdLeft = 0)) : 0 < x.duo.rdLeft := by
  obtain ⟨-, -, -, hout, hex⟩ := he
  cases ha : x.duo.rdAt with
  | out => exact absurd ha hout
  | exited => exact absurd ha hex
  | entry => exact Nat.pos_of_ne_zero fun h0 => hs ⟨ha, h0⟩
  | loop => exact h.loops (.inl ha)
  | asleep => exact h.loops (.inr ha)

/-- What the copying of a pass gives the reader, if it runs into no exit. -/
theorem Feed.Kept.copied (h : x.Kept) (he : x.Enabled (.run .reader)) :
    x.duo.reading.Gets x.duo.reading.served ∧
    x.stream ++ takenFrom x.duo.wrSrc
        (if x.duo.wrAt = .entry then x.duo.reading.served.src else x.duo.wrSrc) =
      x.duo.reading.served.dst ++ x.duo.reading.served.pipe.bytes ∧
    x.duo.reading.served.dst.length + x.duo.reading.served.nleft = x.asked ∧
    x.duo.reading.served.pipe.mNread = x.duo.reading.served.dst.length := by
  have hg := served_gets (s := x.duo.reading) h.placed
  have hout : x.duo.rdAt ≠ .out := he.2.2.2.1
  obtain ⟨hn, ha⟩ := h.counts hout
  have hnone : x.duo.wrAt ≠ .entry → x.duo.reading.served.src = [] := by
    intro hne
    have hm := (moves_served (s := x.duo.reading)).shrinks
    have h0 : x.duo.reading.src = [] := if_neg hne
    rw [h0] at hm
    exact List.length_eq_zero_iff.mp (Nat.le_zero.mp hm)
  refine ⟨hg, ?_, hg.nleft.trans ha, ?_⟩
  · rw [reading_taken hnone, h.order, Duo.inHand, if_neg hout]
    exact hg.order.symm
  · have := hg.nread
    change _ + x.duo.rdDst.length = x.duo.pipe.mNread + _ at this
    omega

theorem Feed.Kept.runReader (h : x.Kept) (he : x.Enabled (.run .reader))
    (hm : x.Meets (.run .reader)) : x.runReader.Kept := by
  have hout : x.duo.rdAt ≠ .out := he.2.2.2.1
  have hin : x.duo.inHand = x.duo.rdDst := if_neg hout
  obtain ⟨hn, ha⟩ := h.counts hout
  by_cases hs : x.duo.rdAt = .entry ∧ x.duo.rdLeft = 0
  · -- The writer has served the reader.
    obtain ⟨hr, hd⟩ := Return.right_of_full (h.order.trans (by rw [hin]))
      (by omega : x.duo.rdDst.length = x.asked) hn
    rw [Feed.runReader, if_pos hs, runReader_served hs.1 hs.2]
    refine ⟨h.placed, fun hne => absurd rfl hne, fun hl => by simp at hl, by simp,
      fun hst => absurd he.1 hst, ?_, ?_⟩
    · exact hd.trans (List.nil_append _).symm
    · intro r hr'
      obtain hr' | hr' := List.mem_append.mp hr'
      · exact h.ended r hr'
      · rw [List.mem_singleton.mp hr']
        exact hr
  · have hpos := h.left_pos he hs
    have hspared := hm.resolve_left hs
    have hq : ¬ x.duo.reading.Quits := fun hq => (quits_iff h.placed hpos).mp hq hspared
    obtain ⟨hg, hstream, hlen, hread⟩ := h.copied he
    rw [Feed.runReader, if_neg hs, body_served hq]
    by_cases hz : x.duo.reading.served.nleft = 0
    · rw [if_pos hz]
      obtain ⟨hr, hd⟩ := Return.right_of_full hstream
        (show x.duo.reading.served.dst.length = x.asked by omega) hread
      refine ⟨⟨hg.placed.mask, hg.placed.head, hg.placed.tail⟩, fun hne => absurd rfl hne,
        fun hl => by simp [Reading.finish, Outcome.place] at hl,
        by simp [Reading.finish, Outcome.place], fun hst => absurd he.1 hst, ?_, ?_⟩
      · exact hd.trans (List.nil_append _).symm
      · intro r hr'
        obtain hr' | hr' := List.mem_append.mp hr'
        · exact h.ended r hr'
        · rw [List.mem_singleton.mp hr']
          exact hr
    · rw [if_neg hz]
      exact ⟨hg.placed, fun _ => ⟨hread, hlen⟩, fun _ => Nat.pos_of_ne_zero hz,
        by simp [Outcome.place], fun _ => rfl, hstream, h.ended⟩

theorem Feed.Kept.next {e : Feed.Event} (h : x.Kept) (he : x.Enabled e) (hm : x.Meets e) :
    (x.next e).Kept := by
  cases e with
  | push val => exact h.push
  | read len => exact h.read he.2
  | write bytes => exact h.write
  | run side =>
    cases side with
    | reader => exact h.runReader he hm
    | writer => exact h.runWriter hm
  | test =>
    have hl : x.duo.rdAt = .loop := h.stage (by rw [show x.stage = .reads from he]; simp)
    exact ⟨h.placed, h.counts, h.loops, h.alive, fun _ => hl, h.order, h.ended⟩
  | block =>
    have hl : x.duo.rdAt = .loop := h.stage (by rw [show x.stage = .waits from he]; simp)
    have hin : x.duo.inHand = x.duo.rdDst := if_neg (by rw [hl]; simp)
    refine ⟨h.placed, fun _ => h.counts (by rw [hl]; simp), fun _ => h.loops (.inl hl), by
      simp [Feed.next], fun hst => absurd rfl hst, ?_, h.ended⟩
    rw [Feed.next, h.order, hin]
    rfl

/-- As long as passes meet the condition, each call that has returned has returned what it asked
for, and the next bytes of the stream; the reader has not exited, and a pass returns if and only
if the ring and a writer in its call hold together what it wants. -/
theorem calls_return_due (h : (feed.restrict Feed.Meets).Reachable x) :
    (∀ r ∈ x.ended, r.Right) ∧ x.duo.rdAt ≠ .exited ∧
    (x.Enabled (.run .reader) → x.Meets (.run .reader) →
      ((x.next (.run .reader)).duo.rdAt = .out ↔
        x.duo.rdLeft ≤ x.duo.pipe.bytes.length + x.duo.reading.offered.length)) := by
  have hk : x.Kept := h.invariant (fun _ => Feed.Kept.init) fun _ _ hk ha => hk.next ha.1 ha.2
  refine ⟨hk.ended, hk.alive, fun he hm => ?_⟩
  change x.runReader.duo.rdAt = .out ↔ _
  by_cases hs : x.duo.rdAt = .entry ∧ x.duo.rdLeft = 0
  · rw [Feed.runReader, if_pos hs, runReader_served hs.1 hs.2, hs.2]
    exact iff_of_true rfl (Nat.zero_le _)
  · have hpos := hk.left_pos he hs
    have hq : ¬ x.duo.reading.Quits :=
      fun hq => (quits_iff hk.placed hpos).mp hq (hm.resolve_left hs)
    have hn : x.duo.reading.served.nleft =
        x.duo.rdLeft - x.duo.pipe.bytes.length - x.duo.reading.offered.length :=
      served_nleft hk.placed
    rw [Feed.runReader, if_neg hs, body_served hq]
    by_cases hz : x.duo.reading.served.nleft = 0
    · rw [if_pos hz]
      exact iff_of_true rfl (by omega)
    · rw [if_neg hz]
      exact iff_of_false (by simp [Outcome.place]) (by omega)

/-- The condition on the reader's passes leaves out those that end in an exit, and no others. -/
theorem exits_iff (h : (feed.restrict Feed.Meets).Reachable x) (he : x.Enabled (.run .reader)) :
    (x.next (.run .reader)).duo.rdAt = .exited ↔ ¬ x.Meets (.run .reader) := by
  have hk : x.Kept := h.invariant (fun _ => Feed.Kept.init) fun _ _ hk ha => hk.next ha.1 ha.2
  refine ⟨fun hx hm => (hk.runReader he hm).alive hx, fun hm => ?_⟩
  have hs : ¬ (x.duo.rdAt = .entry ∧ x.duo.rdLeft = 0) := fun hs => hm (.inl hs)
  have hq := (quits_iff (s := x.duo.reading) hk.placed (hk.left_pos he hs)).mpr
    fun hsp => hm (.inr hsp)
  obtain ⟨code, hb⟩ := body_quits hq
  change x.runReader.duo.rdAt = .exited
  rw [Feed.runReader, if_neg hs]
  simp only [hb]
  rfl

/-- With no interrupt in between, a pass and its test are one pass of the reader. -/
theorem runReader_settles (hs : ¬ (x.duo.rdAt = .entry ∧ x.duo.rdLeft = 0))
    (hst : x.duo.rdState = .ready) (hb : x.duo.reading.body.2 = none) :
    (if x.runReader.duo.pipe.mHead = x.runReader.duo.pipe.mTail
      then (x.runReader.next .block).duo else x.runReader.duo) = x.duo.runReader := by
  have hpass : Reading.pass ⟨x.duo.pipe, x.duo.rdDst, x.duo.rdLeft,
      if x.duo.wrAt = .entry then x.duo.wrSrc else [], false⟩ = (x.duo.reading.body.1,
      if x.duo.reading.body.1.pipe.mHead = x.duo.reading.body.1.pipe.mTail then .sleeps
      else .again) := by
    rw [show Reading.mk _ _ _ _ _ = x.duo.reading from rfl, reading_pass_body, hb]
    rfl
  rw [Feed.runReader, if_neg hs, Duo.runReader, if_neg hs]
  simp only [hpass, hb, Feed.next, Option.getD_none]
  by_cases he : x.duo.reading.body.1.pipe.mHead = x.duo.reading.body.1.pipe.mTail
  · simp [he, Outcome.place]
  · simp [he, Outcome.place, hst]

end

instance (x : Feed) : (e : Feed.Event) → Decidable (x.Enabled e)
  | .push _ => .isTrue trivial
  | .read _ | .write _ => inferInstanceAs (Decidable (_ ∧ _))
  | .run _ => inferInstanceAs (Decidable (_ ∧ _ ∧ _ ∧ _ ∧ _))
  | .test | .block => inferInstanceAs (Decidable (_ = _))

instance (s : Reading Side) : Decidable s.Spared := inferInstanceAs (Decidable (_ ∨ _ ∧ _))

instance (x : Feed) : (e : Feed.Event) → Decidable (x.Meets e)
  | .run .reader => inferInstanceAs (Decidable (_ ∧ _ ∨ _))
  | .run .writer => inferInstanceAs (Decidable (_ → _ → _ → _ → _))
  | .push _ | .read _ | .write _ | .test | .block => .isTrue trivial

instance (x : Feed) (e : Feed.Event) : Decidable (feed.allowed x e) :=
  inferInstanceAs (Decidable (x.Enabled e))

instance (x : Feed) (e : Feed.Event) : Decidable ((feed.restrict Feed.Meets).allowed x e) :=
  inferInstanceAs (Decidable (x.Enabled e ∧ x.Meets e))

def newFeed : Feed := ⟨newPipe 15, .loop, 0, [], []⟩

theorem init_newFeed : feed.init newFeed where
  placed := ⟨⟨4, rfl⟩, Nat.zero_le 15, Nat.zero_le 15⟩
  rdtask := rfl
  wrtask := rfl
  busy := rfl
  rdAt := rfl
  rdState := rfl
  wrAt := rfl
  wrState := rfl
  stage := rfl
  stream := rfl
  ended := rfl

/-- A blocked reader meets a write of four bytes and takes one; the writer serves the next read
of three, and of the two of a third read an interrupt and a write bring one each. -/
def servedReads : List Feed.Event :=
  [.read 1, .write [1, 2, 3, 4], .run .reader, .read 3, .run .writer, .run .reader,
    .push 5, .read 2, .run .reader, .test, .block, .write [6], .run .reader]

theorem calls_return_due_servedReads :
    (servedReads.foldl Feed.next newFeed).ended =
      [⟨1, 1, [1], [1]⟩, ⟨3, 3, [2, 3, 4], [2, 3, 4]⟩, ⟨2, 2, [5, 6], [5, 6]⟩] ∧
    (∀ r ∈ (servedReads.foldl Feed.next newFeed).ended, r.Right) ∧
    (servedReads.foldl Feed.next newFeed).duo.rdAt ≠ .exited := by
  have hr : (feed.restrict Feed.Meets).Reachable (servedReads.foldl Feed.next newFeed) :=
    (System.reachable_init (M := feed.restrict Feed.Meets) init_newFeed).foldl (by decide +kernel)
  have h := calls_return_due hr
  exact ⟨by decide +kernel, h.1, h.2.1⟩

/-- An interrupt has brought two bytes when a task reads them. -/
def readTwo : List Feed.Event := [.push 1, .push 2, .read 2, .run .reader]

theorem readTwo_exits : ∃ x, feed.Reachable x ∧ x.duo.rdAt = .exited ∧
    x.duo.rdDst = [1, 2] ∧ x.ended = [] :=
  ⟨readTwo.foldl Feed.next newFeed, (System.reachable_init init_newFeed).foldl (by decide +kernel),
    by decide +kernel, by decide +kernel, by decide +kernel⟩

end S6Soc.ZipOS
