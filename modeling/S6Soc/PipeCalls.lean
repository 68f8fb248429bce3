import Mathlib
import S6Soc.PipeEnds

/-! Calls on shared pipes: what each call has moved, what it returns, and whose the counters
are. -/
namespace S6Soc.ZipOS
open Clocked

variable {τ ι : Type}

/-- `r` is `s` after some copying: both counters have kept up with it. -/
structure Reading.Moves (s r : Reading τ) : Prop where
  grows : s.dst.length ≤ r.dst.length
  nread : r.pipe.mNread + s.dst.length = s.pipe.mNread + r.dst.length
  shrinks : r.src.length ≤ s.src.length
  nwritten : r.pipe.mNwritten + r.src.length = s.pipe.mNwritten + s.src.length
  wrtask : r.pipe.mWrtask = s.pipe.mWrtask ∨ r.src = []

section
variable {s r u : Reading τ} {h ln n : Nat}

theorem Reading.Moves.refl : s.Moves s := ⟨le_refl _, rfl, le_refl _, rfl, .inl rfl⟩

theorem Reading.Moves.trans (hr : s.Moves r) (hu : r.Moves u) : s.Moves u where
  grows := hr.grows.trans hu.grows
  nread := by
    have := hr.nread
    have := hu.nread
    omega
  shrinks := hu.shrinks.trans hr.shrinks
  nwritten := hu.nwritten.trans hr.nwritten
  wrtask := by
    obtain h | h := hu.wrtask
    · obtain h' | h' := hr.wrtask
      · exact .inl (h.trans h')
      · have := hu.shrinks
        rw [h'] at this
        exact .inr (List.length_eq_zero_iff.mp (Nat.le_zero.mp this))
    · exact .inr h

theorem moves_copy : s.Moves (s.copy ln) where
  grows := by simp [Reading.copy]
  nread := by
    simp [Reading.copy, Ring.run]
    omega
  shrinks := le_refl _
  nwritten := rfl
  wrtask := .inl rfl

theorem moves_wrapped : s.Moves (s.wrapped h) := by
  unfold Reading.wrapped
  split_ifs
  · exact moves_copy
  · exact .refl

theorem moves_straight : s.Moves (s.straight h) := by
  unfold Reading.straight
  split_ifs
  · exact moves_copy
  · exact .refl

theorem moves_reading_direct : s.Moves s.direct := by
  unfold Reading.direct
  split_ifs with hw
  · have hl := List.length_take_le (min s.nleft s.src.length) s.src
    refine ⟨by simp, ?_, by simp, ?_, ?_⟩
    · simp
      omega
    · simp
    · dsimp only
      split_ifs with hz
      · exact .inr (List.length_eq_zero_iff.mp hz)
      · exact .inl rfl
  · exact .refl

/-- The bytes that the ring holds for the reader. -/
def Reading.drained (s : Reading τ) : Reading τ := (s.wrapped s.pipe.mHead).straight s.pipe.mHead

/-- One of the loop's debugging tests meets. -/
def Reading.Quits (s : Reading τ) : Prop :=
  s.pipe.mHead < s.pipe.mTail ∧ (s.wrapped s.pipe.mHead).exitCode ≠ none ∨
    0 < (s.wrapped s.pipe.mHead).nleft ∧ s.drained.exitCode ≠ none

/-- Then what a blocked writer offers. -/
def Reading.served (s : Reading τ) : Reading τ :=
  if s.drained.nleft = 0 then s.drained else s.drained.direct

theorem exitCodes_eq (hq : ¬ s.Quits) :
    (if s.pipe.mHead < s.pipe.mTail then (s.wrapped s.pipe.mHead).exitCode else none) = none ∧
    (if 0 < (s.wrapped s.pipe.mHead).nleft then s.drained.exitCode else none) = none := by
  constructor
  · by_contra hc
    split_ifs at hc with hlt
    · exact hq (.inl ⟨hlt, hc⟩)
    · exact hc rfl
  · by_contra hc
    split_ifs at hc with hlt
    · exact hq (.inr ⟨hlt, hc⟩)
    · exact hc rfl

theorem reading_pass_eq (hq : ¬ s.Quits) :
    s.pass = if s.served.nleft = 0 then s.served.finish
      else (s.served, if s.served.pipe.mHead = s.served.pipe.mTail then .sleeps else .again) := by
  obtain ⟨hw, hs⟩ := exitCodes_eq hq
  unfold Reading.pass
  simp only [hw]
  rw [Reading.drained] at hs
  simp only [hs]
  rfl

theorem moves_drained : s.Moves s.drained := moves_wrapped.trans moves_straight

theorem moves_served : s.Moves s.served := by
  unfold Reading.served
  split_ifs
  · exact moves_drained
  · exact moves_drained.trans moves_reading_direct

theorem drained_eq : s.drained.src = s.src ∧ s.drained.pipe.mWrtask = s.pipe.mWrtask ∧
    s.drained.pipe.mRdtask = s.pipe.mRdtask := by
  simp only [Reading.drained, Reading.straight, Reading.wrapped]
  split_ifs <;> exact ⟨rfl, rfl, rfl⟩

theorem served_of_drained (h : s.drained.nleft = 0) : s.served = s.drained := if_pos h

theorem served_rdtask : s.served.pipe.mRdtask = s.pipe.mRdtask := by
  unfold Reading.served Reading.direct
  split_ifs <;> exact drained_eq.2.2

/-- A pass that runs into no debugging test: what the reader gets and the writer gives is as in
`served`, and the reader returns its counter or goes on with bytes to read. -/
theorem reading_pass_spec (hq : ¬ s.Quits) :
    s.pass.1.dst = s.served.dst ∧ s.pass.1.src = s.served.src ∧
    s.pass.1.pipe.mNwritten = s.served.pipe.mNwritten ∧
    s.pass.1.pipe.mWrtask = s.served.pipe.mWrtask ∧
    (s.pass.2 = .done s.served.pipe.mNread ∨
      0 < s.pass.1.nleft ∧ s.pass.1.pipe.mNread = s.served.pipe.mNread ∧
      s.pass.1.pipe.mRdtask = s.pipe.mRdtask ∧ (s.pass.2 = .sleeps ∨ s.pass.2 = .again)) := by
  rw [reading_pass_eq hq]
  split_ifs with hz ht
  · exact ⟨rfl, rfl, rfl, rfl, .inl rfl⟩
  · exact ⟨rfl, rfl, rfl, rfl, .inr ⟨Nat.pos_of_ne_zero hz, rfl, served_rdtask, .inl rfl⟩⟩
  · exact ⟨rfl, rfl, rfl, rfl, .inr ⟨Nat.pos_of_ne_zero hz, rfl, served_rdtask, .inr rfl⟩⟩

end

/-- As for a reader. -/
structure Writing.Moves (s r : Writing τ) : Prop where
  shrinks : r.src.length ≤ s.src.length
  nwritten : r.pipe.mNwritten + r.src.length = s.pipe.mNwritten + s.src.length
  grows : s.dst.length ≤ r.dst.length
  nread : r.pipe.mNread + s.dst.length = s.pipe.mNread + r.dst.length
  rdtask : r.pipe.mRdtask = s.pipe.mRdtask ∨ r.want = 0 ∧ ∃ t, s.pipe.mRdtask = .task t

section
variable {s r u : Writing τ} {n : Nat} {d : ReadTask τ}

theorem Writing.Moves.refl : s.Moves s := ⟨le_refl _, rfl, le_refl _, rfl, .inl rfl⟩

theorem moves_writing_direct : s.Moves s.direct := by
  unfold Writing.direct
  split
  next t ht =>
    have hl := List.length_take_le (min s.src.length s.want) s.src
    refine ⟨by simp, ?_, by simp, ?_, ?_⟩
    · simp
    · simp
      omega
    · dsimp only
      split_ifs with hz
      · exact .inr ⟨hz, t, ht⟩
      · exact .inl ht.symm
  · exact .refl

theorem writing_direct_of_not_task (h : s.pipe.mRdtask.isTask = false) : s.direct = s := by
  unfold Writing.direct
  split
  next t ht => simp [ht, ReadTask.isTask] at h
  · rfl

/-- The rest of a pass leaves the reader alone. -/
theorem fill_moves : (s.fill d).1.dst = s.dst ∧ (s.fill d).1.want = s.want ∧
    (s.fill d).1.pipe.mRdtask = s.pipe.mRdtask ∧ (s.fill d).1.pipe.mNread = s.pipe.mNread ∧
    (s.fill d).1.src.length ≤ s.src.length ∧
    (s.fill d).1.pipe.mNwritten + (s.fill d).1.src.length =
      s.pipe.mNwritten + s.src.length := by
  have hs : ∀ n, (s.store n).src.length ≤ s.src.length ∧
      (s.store n).pipe.mNwritten + (s.store n).src.length = s.pipe.mNwritten + s.src.length := by
    intro n
    simp only [Writing.store, List.length_drop]
    omega
  unfold Writing.fill
  dsimp only
  split_ifs <;> first
    | exact ⟨rfl, rfl, rfl, rfl, le_refl _, rfl⟩
    | exact ⟨rfl, rfl, rfl, rfl, (hs _).1, (hs _).2⟩

theorem moves_writing_pass : s.Moves s.pass.1 := by
  have hd : s.Moves s.direct := moves_writing_direct
  unfold Writing.pass
  dsimp only
  split_ifs
  · exact ⟨hd.shrinks, hd.nwritten, hd.grows, hd.nread, hd.rdtask⟩
  · obtain ⟨hdst, hwant, hrd, hnread, hle, hnw⟩ := fill_moves (s := s.direct) (d := s.pipe.mRdtask)
    refine ⟨hle.trans hd.shrinks, hnw.trans hd.nwritten, ?_, ?_, ?_⟩
    · rw [hdst]
      exact hd.grows
    · rw [hdst, hnread]
      exact hd.nread
    · rw [hrd, hwant]
      exact hd.rdtask

theorem writing_pass_alone (h : s.pipe.mRdtask.isTask = false) :
    s.pass.1.pipe.mNread = s.pipe.mNread := by
  simp only [Writing.pass, h, writing_direct_of_not_task h]
  exact fill_moves.2.2.2.1

theorem fill_returns (hd : (s.fill d).2 = .done n) : n = (s.fill d).1.pipe.mNwritten := by
  unfold Writing.fill at hd ⊢
  dsimp only at hd ⊢
  split_ifs at hd ⊢ <;> exact (Outcome.done.inj hd).symm

/-- A writer returns its counter. -/
theorem writing_pass_returns (hd : s.pass.2 = .done n) : n = s.pass.1.pipe.mNwritten := by
  unfold Writing.pass at hd ⊢
  dsimp only at hd ⊢
  split_ifs at hd ⊢
  · exact (Outcome.done.inj hd).symm
  · exact fill_returns hd

theorem fill_left (hd : ∀ n, (s.fill d).2 ≠ .done n) : (s.fill d).1.src ≠ [] := by
  unfold Writing.fill at hd ⊢
  dsimp only at hd ⊢
  split_ifs at hd ⊢ <;> first | assumption | exact absurd rfl (hd _)

/-- A writer that goes on has bytes left. -/
theorem writing_pass_left (hd : ∀ n, s.pass.2 ≠ .done n) : s.pass.1.src ≠ [] := by
  unfold Writing.pass at hd ⊢
  dsimp only at hd ⊢
  split_ifs at hd ⊢
  · exact absurd rfl (hd _)
  · exact fill_left hd

theorem fill_wrtask (hd : ∀ n, (s.fill d).2 ≠ .done n) :
    (s.fill d).1.pipe.mWrtask = s.pipe.mWrtask := by
  unfold Writing.fill at hd ⊢
  dsimp only at hd ⊢
  split_ifs at hd ⊢ <;> first | rfl | exact absurd rfl (hd _)

theorem writing_pass_wrtask (hd : ∀ n, s.pass.2 ≠ .done n) :
    s.pass.1.pipe.mWrtask = s.pipe.mWrtask := by
  have hdir : s.direct.pipe.mWrtask = s.pipe.mWrtask := by
    unfold Writing.direct
    split <;> rfl
  unfold Writing.pass at hd ⊢
  dsimp only at hd ⊢
  split_ifs at hd ⊢
  · exact absurd rfl (hd _)
  · exact (fill_wrtask hd).trans hdir

end

section
variable [DecidableEq τ] [DecidableEq ι]

/-- How the running task's pass ends. -/
def Kernel.outcome (k : Kernel τ ι) : Outcome :=
  match (k.tasks k.current).frame with
  | .reading p true _ 0 => .done (k.pipes p).mNread
  | .reading p _ dst nleft => (k.reading p dst nleft).pass.2
  | .writing p _ src => (k.writing p src).pass.2
  | _ => .again

/-- The bytes that the running task's pass moves for `t`. -/
def Kernel.copied (k : Kernel τ ι) (t : τ) : Nat :=
  match (k.tasks k.current).frame with
  | .reading _ true _ 0 => 0
  | .reading p _ dst nleft =>
    let s := k.reading p dst nleft
    if t = k.current then s.pass.1.dst.length - s.dst.length
    else if (k.pipes p).mWrtask = some t then s.src.length - s.pass.1.src.length
    else 0
  | .writing p _ src =>
    let s := k.writing p src
    if t = k.current then s.src.length - s.pass.1.src.length
    else if (k.pipes p).mRdtask = .task t then s.pass.1.dst.length - s.dst.length
    else 0
  | _ => 0

/-- How a call ends that has returned `n`, or has run into a debugging test. -/
def Outcome.ends : Outcome → Option (Option Nat)
  | .done n => some (some n)
  | .exits _ => some none
  | .again | .sleeps => none

/-- The kernel, the bytes that each task's last call has moved, and how the calls that have
ended did, each with the bytes it had moved. -/
structure Calls (τ ι : Type) where
  kernel : Kernel τ ι
  moved : τ → Nat
  ended : List (Option Nat × Nat)

def Calls.next (s : Calls τ ι) (e : Kernel.Event τ ι) : Calls τ ι :=
  match e with
  | .trap tr =>
    { s with
      kernel := s.kernel.next (.trap tr)
      moved := Function.update s.moved s.kernel.current 0 }
  | .pass =>
    let moved t := s.moved t + s.kernel.copied t
    { kernel := s.kernel.next .pass
      moved := moved
      ended := s.ended ++
        (s.kernel.outcome.ends.map fun v => (v, moved s.kernel.current)).toList }
  | e => { s with kernel := s.kernel.next e }

def pipeCalls : System (Calls τ ι) (Kernel.Event τ ι) where
  init s := halting.init s.kernel ∧ s.ended = []
  allowed s e := halting.allowed s.kernel e
  next := Calls.next

/-- The two ends of a pipe. -/
inductive Role
  | reader
  | writer
  deriving DecidableEq

def Role.other : Role → Role
  | .reader => .writer
  | .writer => .reader

/-- The pipe call that a task is in: its role, the pipe, whether it has yet to start its loop, and
the bytes that it has still to move. -/
def Frame.call : Frame ι → Option (Role × ι × Bool × Nat)
  | .reading p fresh _ nleft => some (.reader, p, fresh, nleft)
  | .writing p fresh src => some (.writer, p, fresh, src.length)
  | .own | .waiting _ => none

def SysPipe.counter (p : SysPipe τ) : Role → Nat
  | .reader => p.mNread
  | .writer => p.mNwritten

def SysPipe.owner (p : SysPipe τ) : Role → Option τ
  | .reader => p.mRdtask.toOption
  | .writer => p.mWrtask

/-- No call that its partner has served has still to return. -/
def Kernel.Back (k : Kernel τ ι) (r : Role) (p : ι) : Prop :=
  ∀ t, (k.tasks t).frame.call ≠ some (r, p, true, 0)

def Frame.fresh : Frame ι → Bool
  | .reading _ fresh _ _ => fresh
  | .writing _ fresh _ => fresh
  | .own | .waiting _ => false

/-- The running task's pass, in `frame`, takes from a partner only what a call that has yet to
start its loop offers, and runs into no debugging test. -/
def Kernel.PassApart (k : Kernel τ ι) : Frame ι → Prop
  | .reading _ true _ 0 => True
  | .reading p _ dst nleft => ¬ (k.reading p dst nleft).Quits ∧
      (0 < (k.reading p dst nleft).drained.nleft →
        ∀ w ∈ (k.pipes p).mWrtask, (k.tasks w).frame.fresh)
  | .writing p _ _ => ∀ r ∈ (k.pipes p).mRdtask.toOption, (k.tasks r).frame.fresh
  | .own | .waiting _ => True

/-- A call is accepted only when the last one at that end is back, and passes keep apart. -/
def Kernel.Apart (k : Kernel τ ι) : Kernel.Event τ ι → Prop
  | .trap (.read fd dst len) => ∀ p ∈ k.lookup fd,
      (kreadSyspipe (k.pipes p) k.current len.toInt (validRamRegion dst len)).refused = none →
      k.Back .reader p
  | .trap (.write fd src len _) => ∀ p ∈ k.lookup fd,
      (kwriteSyspipe (k.pipes p) k.current len.toInt (validMemRegion src len)).refused = none →
      k.Back .writer p
  | .pass => k.PassApart (k.tasks k.current).frame
  | _ => True

/-- Every call that has ended has returned what it had moved. A call under way has its own
counter and, while it has bytes to move, its end of the pipe, and is the only one there. -/
structure Calls.Kept (s : Calls τ ι) : Prop where
  ended : ∀ r ∈ s.ended, r.1 = some r.2
  call {t : τ} {r : Role} {p : ι} {fresh : Bool} {n : Nat} :
    (s.kernel.tasks t).frame.call = some (r, p, fresh, n) →
      (s.kernel.pipes p).counter r = s.moved t ∧
      (0 < n → (s.kernel.pipes p).owner r = some t) ∧ (n = 0 → fresh)
  alone {t u : τ} {r : Role} {p : ι} {f g : Bool} {m n : Nat} :
    (s.kernel.tasks t).frame.call = some (r, p, f, m) →
      (s.kernel.tasks u).frame.call = some (r, p, g, n) → t = u

end

section
variable {k k' : Kernel τ ι} {s s' : Calls τ ι} {p : ι} {r : Role} {t : τ}

/-- `q` is `p` as far as calls can tell. -/
def SysPipe.SameCalls (p q : SysPipe τ) : Prop :=
  q.mRdtask = p.mRdtask ∧ q.mWrtask = p.mWrtask ∧ q.mNread = p.mNread ∧ q.mNwritten = p.mNwritten

theorem SysPipe.SameCalls.refl {p : SysPipe τ} : p.SameCalls p := ⟨rfl, rfl, rfl, rfl⟩

theorem SysPipe.SameCalls.eq {p q : SysPipe τ} (h : p.SameCalls q) :
    q.counter r = p.counter r ∧ q.owner r = p.owner r := by
  obtain ⟨h1, h2, h3, h4⟩ := h
  cases r with
  | reader => exact ⟨h3, congrArg ReadTask.toOption h1⟩
  | writer => exact ⟨h4, h2⟩

theorem Frame.call_of_not_inPipe {f : Frame ι} (h : f.inPipe = false) : f.call = none := by
  cases f <;> first | rfl | cases h

theorem Kernel.Owned.call (h : k.Owned) (ht : (k.pipes p).owner r = some t) :
    ∃ f n, (k.tasks t).frame.call = some (r, p, f, n) := by
  cases r with
  | reader =>
    obtain ⟨f, dst, n, hf, -⟩ := (h p).1 t (toOption_eq_some ht)
    exact ⟨f, n, by rw [hf]; rfl⟩
  | writer =>
    obtain ⟨f, src, hf⟩ := (h p).2 t ht
    exact ⟨f, src.length, by rw [hf]; rfl⟩

/-- No call begins, moves or ends, but tasks may leave pipe calls that they are not in. -/
theorem Calls.Kept.mono (h : s.Kept) (he : s'.ended = s.ended)
    (hf : ∀ t, (s'.kernel.tasks t).frame = (s.kernel.tasks t).frame ∧ s'.moved t = s.moved t ∨
      (s'.kernel.tasks t).frame.inPipe = false)
    (hp : ∀ p, (s.kernel.pipes p).SameCalls (s'.kernel.pipes p)) : s'.Kept := by
  have hcall : ∀ {t c}, (s'.kernel.tasks t).frame.call = some c →
      (s.kernel.tasks t).frame.call = some c ∧ s'.moved t = s.moved t := by
    intro t c ht
    obtain ⟨hs, hm⟩ | hs := hf t
    · exact ⟨by rw [← hs, ht], hm⟩
    · cases (Frame.call_of_not_inPipe hs).symm.trans ht
  refine ⟨by rw [he]; exact h.ended, fun {t r p f n} ht => ?_, fun ht hu => ?_⟩
  · obtain ⟨ht, hm⟩ := hcall ht
    rw [(hp p).eq.1, (hp p).eq.2, hm]
    exact h.call ht
  · exact h.alone (hcall ht).1 (hcall hu).1

/-- The running task, in no pipe call so far, begins one at an end that is free. -/
theorem Calls.Kept.accept (h : s.Kept) {c : τ} {n : Nat}
    (hfree : (s.kernel.pipes p).owner r = none) (hb : s.kernel.Back r p)
    (hc : (s'.kernel.tasks c).frame.call = some (r, p, true, n))
    (hf : ∀ t, t ≠ c → (s'.kernel.tasks t).frame = (s.kernel.tasks t).frame ∧
      s'.moved t = s.moved t)
    (hm : s'.moved c = 0) (he : s'.ended = s.ended)
    (hp : (s'.kernel.pipes p).counter r = 0 ∧ (s'.kernel.pipes p).owner r = some c)
    (hq : ∀ q r', (s'.kernel.pipes q).counter r' = (s.kernel.pipes q).counter r' ∧
      (s'.kernel.pipes q).owner r' = (s.kernel.pipes q).owner r' ∨ q = p ∧ r' = r) : s'.Kept := by
  have hno : ∀ {t f m}, (s.kernel.tasks t).frame.call ≠ some (r, p, f, m) := by
    intro t f m ht
    obtain ⟨-, hown, hfr⟩ := h.call ht
    rcases Nat.eq_zero_or_pos m with rfl | hpos
    · rw [hfr rfl] at ht
      exact hb t ht
    · cases hfree.symm.trans (hown hpos)
  refine ⟨by rw [he]; exact h.ended, fun {t r' q f m} ht => ?_, fun {t u r' q f g m m'} ht hu => ?_⟩
  · by_cases htc : t = c
    · subst htc
      cases hc.symm.trans ht
      exact ⟨by rw [hp.1, hm], fun _ => hp.2, fun _ => rfl⟩
    · rw [(hf t htc).1] at ht
      obtain ⟨h1, h2⟩ | ⟨rfl, rfl⟩ := hq q r'
      · rw [h1, h2, (hf t htc).2]
        exact h.call ht
      · exact absurd ht hno
  · by_cases htc : t = c
    · subst htc
      cases hc.symm.trans ht
      by_contra hne
      rw [(hf u (Ne.symm hne)).1] at hu
      exact hno hu
    · rw [(hf t htc).1] at ht
      by_cases huc : u = c
      · subst huc
        cases hc.symm.trans hu
        exact absurd ht hno
      · rw [(hf u huc).1] at hu
        exact h.alone ht hu

/-- The running task makes a pass at one end of `p`, in which its partner may be served. -/
theorem Calls.Kept.passed (h : s.Kept) (ho : s.kernel.Owned) {c : τ} {f : Bool} {n : Nat}
    (hf : (s.kernel.tasks c).frame.call = some (r, p, f, n))
    (hc : (s'.kernel.tasks c).frame.call = none ∨ ∃ m,
      (s'.kernel.tasks c).frame.call = some (r, p, false, m) ∧ 0 < m ∧
      (s'.kernel.pipes p).counter r = s'.moved c ∧ (s'.kernel.pipes p).owner r = some c)
    (hw : ∀ w g m, w ≠ c → (s.kernel.pipes p).owner r.other = some w →
      (s.kernel.tasks w).frame.call = some (r.other, p, g, m) → ∃ m',
      (s'.kernel.tasks w).frame.call = some (r.other, p, g, m') ∧
      (s'.kernel.pipes p).counter r.other = s'.moved w ∧
      (0 < m' → (s'.kernel.pipes p).owner r.other = some w) ∧ (m' = 0 → g))
    (hn : (s.kernel.pipes p).owner r.other = none →
      (s'.kernel.pipes p).counter r.other = (s.kernel.pipes p).counter r.other)
    (ht : ∀ t, t ≠ c → (s.kernel.pipes p).owner r.other ≠ some t →
      (s'.kernel.tasks t).frame = (s.kernel.tasks t).frame ∧ s'.moved t = s.moved t)
    (hq : ∀ q, q ≠ p → s'.kernel.pipes q = s.kernel.pipes q)
    (he : ∀ e ∈ s'.ended, e ∈ s.ended ∨ e.1 = some e.2) : s'.Kept := by
  have hback : ∀ {t r' q g m}, (s'.kernel.tasks t).frame.call = some (r', q, g, m) →
      ∃ g' m', (s.kernel.tasks t).frame.call = some (r', q, g', m') := by
    intro t r' q g m htc
    by_cases hcur : t = c
    · subst hcur
      obtain hc | ⟨m, hc, -⟩ := hc
      · cases hc.symm.trans htc
      · cases hc.symm.trans htc
        exact ⟨f, n, hf⟩
    · by_cases hv : (s.kernel.pipes p).owner r.other = some t
      · obtain ⟨g', m', hfr⟩ := ho.call hv
        obtain ⟨m', hfr', -⟩ := hw t g' m' hcur hv hfr
        cases hfr'.symm.trans htc
        exact ⟨_, _, hfr⟩
      · exact ⟨g, m, (ht t hcur hv).1 ▸ htc⟩
  refine ⟨fun e hm => ?_, fun {t r' q g m} htc => ?_, fun {t u r' q _ _ _ _} htc huc => ?_⟩
  · obtain hm | hm := he e hm
    · exact h.ended e hm
    · exact hm
  · by_cases hcur : t = c
    · subst hcur
      obtain hc | ⟨m', hc, hpos, hcnt, hown⟩ := hc
      · cases hc.symm.trans htc
      · cases hc.symm.trans htc
        exact ⟨hcnt, fun _ => hown, fun h0 => absurd h0 hpos.ne'⟩
    by_cases hv : (s.kernel.pipes p).owner r.other = some t
    · obtain ⟨g', m', hfr⟩ := ho.call hv
      obtain ⟨m', hfr', hcnt, hown, hfresh⟩ := hw t g' m' hcur hv hfr
      cases hfr'.symm.trans htc
      exact ⟨hcnt, hown, hfresh⟩
    · obtain ⟨hfr, hm⟩ := ht t hcur hv
      rw [hfr] at htc
      by_cases hqp : q = p
      · -- a call that has been served; nobody else can own the end
        subst hqp
        obtain ⟨hcnt, hown, hfresh⟩ := h.call htc
        obtain rfl : r' = r.other := by
          by_contra hne
          have : r' = r := by cases r <;> cases r' <;> simp_all [Role.other]
          subst this
          exact hcur (h.alone htc hf)
        have hm0 : m = 0 := by
          by_contra hne
          exact hv (hown (Nat.pos_of_ne_zero hne))
        have hnone : (s.kernel.pipes q).owner r.other = none := by
          by_contra hne
          obtain ⟨w, hw⟩ := Option.ne_none_iff_exists'.mp hne
          obtain ⟨_, _, hfr⟩ := ho.call hw
          exact hv (h.alone hfr htc ▸ hw)
        exact ⟨by rw [hn hnone, hm, hcnt], fun hpos => absurd hm0 hpos.ne', hfresh⟩
      · rw [hq q hqp, hm]
        exact h.call htc
  · obtain ⟨_, _, htc⟩ := hback htc
    obtain ⟨_, _, huc⟩ := hback huc
    exact h.alone htc huc

theorem kread_accepted {q : SysPipe τ} {u : τ} {len : Int} {valid : Bool}
    (h : (kreadSyspipe q u len valid).refused = none) :
    q.mRdtask = .none ∧ 0 < len ∧
      (kreadSyspipe q u len valid).pipe = { q with mRdtask := .task u, mNread := 0 } := by
  unfold kreadSyspipe at h ⊢
  split at h
  next hq =>
    simp only [hq]
    split_ifs at h ⊢ with he hl hv
    · cases h
    · cases h
    · cases h
    · refine ⟨trivial, by omega, ?_⟩
      split <;> rfl
  · cases h

theorem kread_refused {q : SysPipe τ} {u : τ} {len : Int} {valid : Bool}
    (h : (kreadSyspipe q u len valid).refused ≠ none) :
    q.SameCalls (kreadSyspipe q u len valid).pipe := by
  unfold kreadSyspipe at h ⊢
  split at h
  · split_ifs at h ⊢ with he hl hv
    · exact ⟨rfl, rfl, rfl, rfl⟩
    · exact .refl
    · exact .refl
    · dsimp only at h
      split at h <;> exact absurd rfl h
  · exact .refl

theorem kwrite_accepted {q : SysPipe τ} {u : τ} {len : Int} {valid : Bool}
    (h : (kwriteSyspipe q u len valid).refused = none) :
    q.mWrtask = none ∧
      (kwriteSyspipe q u len valid).pipe = { q with mWrtask := some u, mNwritten := 0 } := by
  unfold kwriteSyspipe at h ⊢
  split at h
  next hq =>
    simp only [hq]
    split_ifs at h ⊢ with hl hv
    · cases h
    · cases h
    · refine ⟨trivial, ?_⟩
      split <;> rfl
  · cases h

theorem kwrite_refused {q : SysPipe τ} {u : τ} {len : Int} {valid : Bool}
    (h : (kwriteSyspipe q u len valid).refused ≠ none) :
    q.SameCalls (kwriteSyspipe q u len valid).pipe := by
  unfold kwriteSyspipe at h ⊢
  split at h
  · split_ifs at h ⊢ with hl hv
    · exact .refl
    · exact .refl
    · dsimp only at h
      split at h <;> exact absurd rfl h
  · exact .refl

end

section
variable [DecidableEq τ] [DecidableEq ι] {k k' : Kernel τ ι} {s s' : Calls τ ι} {p : ι}

/-- What a pipe trap leaves of calls. -/
theorem Calls.Kept.enter (h : s.Kept) {a : Reply τ} {frame : Frame ι} {r : Role} {n : Nat}
    (hcall : frame.call = some (r, p, true, n)) (hk : s'.kernel = s.kernel.enter p a frame)
    (hm : s'.moved = Function.update s.moved s.kernel.current 0) (he : s'.ended = s.ended)
    (hb : a.refused = none → s.kernel.Back r p)
    (hacc : a.refused = none → (s.kernel.pipes p).owner r = none ∧ a.pipe.counter r = 0 ∧
      a.pipe.owner r = some s.kernel.current ∧
      a.pipe.counter r.other = (s.kernel.pipes p).counter r.other ∧
      a.pipe.owner r.other = (s.kernel.pipes p).owner r.other)
    (href : a.refused ≠ none → (s.kernel.pipes p).SameCalls a.pipe) : s'.Kept := by
  have hoth : ∀ t, t ≠ s.kernel.current →
      (s'.kernel.tasks t).frame = (s.kernel.tasks t).frame ∧ s'.moved t = s.moved t := by
    intro t ht
    rw [hk, hm, Function.update_of_ne ht]
    exact ⟨Kernel.frame_enter ht, rfl⟩
  have hp : s'.kernel.pipes = Function.update s.kernel.pipes p a.pipe := by
    rw [hk, Kernel.pipes_enter]
  have hcur : (s'.kernel.tasks s.kernel.current).frame =
      if a.refused = none then frame else .own := by
    rw [hk, Kernel.frame_enter_current]
  by_cases ha : a.refused = none
  · obtain ⟨hfree, hcnt, hown, hcnt', hown'⟩ := hacc ha
    rw [if_pos ha] at hcur
    refine h.accept hfree (hb ha) (by rw [hcur, hcall]) hoth (by rw [hm, Function.update_self]) he
      (by rw [hp, Function.update_self]; exact ⟨hcnt, hown⟩) fun q r' => ?_
    by_cases hq : q = p
    · subst hq
      rw [hp, Function.update_self]
      have hr : r' = r ∨ r' = r.other := by
        cases r <;> cases r' <;> simp [Role.other]
      obtain rfl | rfl := hr
      · exact .inr ⟨rfl, rfl⟩
      · exact .inl ⟨hcnt', hown'⟩
    · rw [hp, Function.update_of_ne hq]
      exact .inl ⟨rfl, rfl⟩
  · rw [if_neg ha] at hcur
    refine h.mono he (fun t => ?_) fun q => ?_
    · by_cases ht : t = s.kernel.current
      · subst ht
        exact .inr (by rw [hcur]; rfl)
      · exact .inl (hoth t ht)
    · rw [hp]
      by_cases hq : q = p
      · subst hq
        rw [Function.update_self]
        exact href ha
      · rw [Function.update_of_ne hq]
        exact .refl

theorem Calls.Kept.read (h : s.Kept) {len : Int} {valid : Bool} {n : Nat}
    (hb : (kreadSyspipe (s.kernel.pipes p) s.kernel.current len valid).refused = none →
      s.kernel.Back .reader p)
    (hk : s'.kernel = s.kernel.enter p
      (kreadSyspipe (s.kernel.pipes p) s.kernel.current len valid) (.reading p true [] n))
    (hm : s'.moved = Function.update s.moved s.kernel.current 0) (he : s'.ended = s.ended) :
    s'.Kept := by
  refine h.enter (r := .reader) rfl hk hm he hb (fun ha => ?_) kread_refused
  obtain ⟨hnone, -, hpipe⟩ := kread_accepted ha
  rw [hpipe]
  refine ⟨?_, rfl, rfl, rfl, rfl⟩
  simp only [SysPipe.owner, hnone]
  rfl

theorem Calls.Kept.write (h : s.Kept) {len : Int} {valid : Bool} {bytes : List (BitVec 8)}
    (hb : (kwriteSyspipe (s.kernel.pipes p) s.kernel.current len valid).refused = none →
      s.kernel.Back .writer p)
    (hk : s'.kernel = s.kernel.enter p
      (kwriteSyspipe (s.kernel.pipes p) s.kernel.current len valid) (.writing p true bytes))
    (hm : s'.moved = Function.update s.moved s.kernel.current 0) (he : s'.ended = s.ended) :
    s'.Kept := by
  refine h.enter (r := .writer) rfl hk hm he hb (fun ha => ?_) kwrite_refused
  obtain ⟨hnone, hpipe⟩ := kwrite_accepted ha
  rw [hpipe]
  exact ⟨hnone, rfl, rfl, rfl, rfl⟩

theorem Calls.Kept.trap (h : s.Kept) {tr : Trap}
    (hf : (s.kernel.tasks s.kernel.current).frame.inPipe = false)
    (hc : s.kernel.Apart (.trap tr)) : (s.next (.trap tr)).Kept := by
  have hkeep : ∀ k' : Kernel τ ι, s.kernel.trap tr = k' →
      (∀ t, (k'.tasks t).frame = (s.kernel.tasks t).frame ∧ t ≠ s.kernel.current ∨
        (k'.tasks t).frame.inPipe = false) →
      (∀ p, (s.kernel.pipes p).SameCalls (k'.pipes p)) → (s.next (.trap tr)).Kept := by
    rintro k' rfl hfr hp
    refine h.mono rfl (fun t => ?_) hp
    obtain ⟨ht, hne⟩ | ht := hfr t
    · exact .inl ⟨ht, Function.update_of_ne hne ..⟩
    · exact .inr ht
  have hset : ∀ f, s.kernel.trap tr = s.kernel.setTask s.kernel.current f →
      (f (s.kernel.tasks s.kernel.current)).frame.inPipe = false → (s.next (.trap tr)).Kept := by
    intro f hk hff
    refine hkeep _ hk (fun t => ?_) fun _ => .refl
    by_cases ht : t = s.kernel.current
    · subst ht
      right
      simpa [Kernel.setTask] using hff
    · exact .inl ⟨by simp [Kernel.setTask, ht], ht⟩
  cases tr with
  | read fd dst len =>
    cases hl : s.kernel.lookup fd with
    | none => exact hset _ (by simp only [Kernel.trap, hl]; rfl) rfl
    | some p =>
      have hk : (s.next (.trap (.read fd dst len))).kernel = s.kernel.enter p
          (kreadSyspipe (s.kernel.pipes p) s.kernel.current len.toInt (validRamRegion dst len))
          (.reading p true [] len.toNat) := by
        simp only [Calls.next, Kernel.next, Kernel.trap, hl]
      exact h.read (hc p hl) hk rfl rfl
  | write fd src len bytes =>
    cases hl : s.kernel.lookup fd with
    | none => exact hset _ (by simp only [Kernel.trap, hl]; rfl) rfl
    | some p =>
      have hk : (s.next (.trap (.write fd src len bytes))).kernel = s.kernel.enter p
          (kwriteSyspipe (s.kernel.pipes p) s.kernel.current len.toInt (validMemRegion src len))
          (.writing p true bytes) := by
        simp only [Calls.next, Kernel.next, Kernel.trap, hl]
      exact h.write (hc p hl) hk rfl rfl
  | post events =>
    refine hkeep _ rfl (fun t => ?_) fun _ => .refl
    have ht : ((s.kernel.trap (.post events)).tasks t).frame = (s.kernel.tasks t).frame :=
      Task.frame_post
    by_cases hc : t = s.kernel.current
    · subst hc
      exact .inr (by rw [ht]; exact hf)
    · exact .inl ⟨ht, hc⟩
  | yield =>
    refine hkeep _ rfl (fun t => ?_) fun _ => .refl
    by_cases hc : t = s.kernel.current
    · subst hc
      exact .inr hf
    · exact .inl ⟨rfl, hc⟩
  | exit =>
    refine hkeep _ rfl (fun t => ?_) fun _ => .refl
    by_cases hc : t = s.kernel.current
    · subst hc
      right
      simp [Kernel.trap, Kernel.setTask, Frame.inPipe]
    · exact .inl ⟨by simp [Kernel.trap, Kernel.setTask, hc], hc⟩
  | wait ilist timeout =>
    exact hset (fun t => { t.wait ilist timeout s.kernel.milliseconds with
      frame := .waiting ilist }) rfl rfl
  | clear mask =>
    exact hset (fun t => { t.clear mask s.kernel.milliseconds with frame := .own }) rfl rfl
  | result value => exact hset (fun t => { t with context1 := value, frame := .own }) rfl rfl

section
variable {f : Bool} {dst src : List (BitVec 8)} {n : Nat}

theorem Kernel.pass_reading (hf : (k.tasks k.current).frame = .reading p f dst n) (hn : 0 < n) :
    k.pass = ((k.setPipe p (k.reading p dst n).pass.1.pipe).partner ((k.pipes p).owner .writer)
      (.offer (k.reading p dst n).pass.1.src) (k.reading p dst n).pass.1.wakes).leave
        (k.reading p dst n).pass.2 (.reading p false (k.reading p dst n).pass.1.dst
          (k.reading p dst n).pass.1.nleft) ∧
    k.outcome = (k.reading p dst n).pass.2 ∧
    ∀ t, k.copied t =
      if t = k.current then (k.reading p dst n).pass.1.dst.length - dst.length
      else if (k.pipes p).owner .writer = some t then
        (k.reading p dst n).src.length - (k.reading p dst n).pass.1.src.length
      else 0 := by
  obtain ⟨n, rfl⟩ := Nat.exists_eq_add_one_of_ne_zero hn.ne'
  cases f <;> simp only [Kernel.pass, Kernel.outcome, Kernel.copied, hf] <;>
    exact ⟨rfl, trivial, fun _ => rfl⟩

theorem Kernel.pass_writing (hf : (k.tasks k.current).frame = .writing p f src) :
    k.pass = ((k.setPipe p (k.writing p src).pass.1.pipe).partner ((k.pipes p).owner .reader)
      (.want (k.writing p src).pass.1.dst (k.writing p src).pass.1.want)
      (k.writing p src).pass.1.wakes).leave (k.writing p src).pass.2
        (.writing p false (k.writing p src).pass.1.src) ∧
    k.outcome = (k.writing p src).pass.2 ∧
    ∀ t, k.copied t =
      if t = k.current then src.length - (k.writing p src).pass.1.src.length
      else if (k.pipes p).owner .reader = some t then
        (k.writing p src).pass.1.dst.length - (k.wanted p).1.length
      else 0 := by
  simp only [Kernel.pass, Kernel.outcome, Kernel.copied, hf]
  refine ⟨rfl, trivial, fun t => ?_⟩
  have ht : (k.pipes p).mRdtask = .task t ↔ (k.pipes p).owner .reader = some t := by
    refine ⟨fun h => ?_, toOption_eq_some⟩
    simp only [SysPipe.owner, h]
    rfl
  simp only [ht]
  rfl

theorem Kernel.frame_current_done {q : SysPipe τ} {v : Option τ} {g : Frame ι → Frame ι}
    {wakes : Bool} {frame : Frame ι} :
    ((((k.setPipe p q).partner v g wakes).leave (.done n) frame).tasks k.current).frame =
      .own := by
  have hc : ((k.setPipe p q).partner v g wakes).current = k.current := current_partner
  rw [Kernel.leave, hc]
  simp [Kernel.setTask, Task.leave]

/-- A pass that copies `a` bytes for the running task and `b` for its partner. -/
theorem Calls.Kept.copied (h : s.Kept) (ho : s.kernel.Owned) {r : Role} {q : SysPipe τ}
    {g : Frame ι → Frame ι} {wakes : Bool} {o : Outcome} {frame : Frame ι} {a b : Nat}
    (hf : (s.kernel.tasks s.kernel.current).frame.call = some (r, p, f, n))
    (hk : s.kernel.pass = ((s.kernel.setPipe p q).partner ((s.kernel.pipes p).owner r.other) g
      wakes).leave o frame)
    (hcopied : ∀ t, s.kernel.copied t = if t = s.kernel.current then a
      else if (s.kernel.pipes p).owner r.other = some t then b else 0)
    (hout : s.kernel.outcome = o)
    (hend : (∃ m, o = .done m ∧ m = s.moved s.kernel.current + a) ∨
      (o = .sleeps ∨ o = .again) ∧ ∃ m, frame.call = some (r, p, false, m) ∧ 0 < m ∧
        q.counter r = s.moved s.kernel.current + a ∧ q.owner r = some s.kernel.current)
    (hw : ∀ w g' m, (s.kernel.pipes p).owner r.other = some w →
      (s.kernel.tasks w).frame.call = some (r.other, p, g', m) →
      ∃ m', (g (s.kernel.tasks w).frame).call = some (r.other, p, g', m') ∧
      q.counter r.other = s.moved w + b ∧
      (0 < m' → q.owner r.other = some w) ∧ (m' = 0 → g'))
    (hn : (s.kernel.pipes p).owner r.other = none →
      q.counter r.other = (s.kernel.pipes p).counter r.other) : (s.next .pass).Kept := by
  have hk : (s.next .pass).kernel = _ := hk
  have hmv : ∀ t, (s.next .pass).moved t = s.moved t + s.kernel.copied t := fun _ => rfl
  have hpipes : (s.next .pass).kernel.pipes = Function.update s.kernel.pipes p q := by
    rw [hk]
    exact Kernel.pipes_leave
  have hmvc : (s.next .pass).moved s.kernel.current = s.moved s.kernel.current + a := by
    rw [hmv, hcopied, if_pos rfl]
  refine h.passed ho hf ?_ ?_ ?_ ?_ ?_ ?_
  · obtain ⟨m, rfl, -⟩ | ⟨hgo, m, hfr, hpos, hcnt, hown⟩ := hend
    · left
      rw [hk, Kernel.frame_current_done]
      rfl
    · refine .inr ⟨m, ?_, hpos, ?_, ?_⟩
      · rw [hk, Kernel.frame_current_passed, hfr]
        · rintro m rfl
          simp at hgo
        · rintro m rfl
          simp at hgo
      · rw [hpipes, Function.update_self, hcnt, hmvc]
      · rw [hpipes, Function.update_self, hown]
  · intro w g' m hne hv hfr
    obtain ⟨m', hfr', hcnt, hown, hg⟩ := hw w g' m hv hfr
    refine ⟨m', ?_, ?_, ?_, hg⟩
    · rw [hk, Kernel.frame_passed hne, if_pos hv, hfr']
    · rw [hpipes, Function.update_self, hcnt, hmv, hcopied, if_neg hne, if_pos hv]
    · rw [hpipes, Function.update_self]
      exact hown
  · intro hv
    rw [hpipes, Function.update_self]
    exact hn hv
  · intro t hne hv
    rw [hk, Kernel.frame_passed hne, if_neg hv, hmv, hcopied, if_neg hne, if_neg hv]
    exact ⟨rfl, rfl⟩
  · intro q' hq
    rw [hpipes, Function.update_of_ne hq]
  · intro e he
    have he : e ∈ s.ended ++ (s.kernel.outcome.ends.map fun v =>
      (v, (s.next .pass).moved s.kernel.current)).toList := he
    rw [List.mem_append, hout] at he
    obtain he | he := he
    · exact .inl he
    · right
      obtain ⟨m, rfl, hm⟩ | ⟨hgo, -⟩ := hend
      · rw [hmvc, ← hm] at he
        cases List.mem_singleton.mp he
        rfl
      · obtain rfl | rfl := hgo <;> simp [Outcome.ends] at he

theorem Calls.Kept.readPass (h : s.Kept) (ho : s.kernel.Owned)
    (hf : (s.kernel.tasks s.kernel.current).frame = .reading p f dst n) (hn : 0 < n)
    (hq : ¬ (s.kernel.reading p dst n).Quits)
    (hw : 0 < (s.kernel.reading p dst n).drained.nleft →
      ∀ w ∈ (s.kernel.pipes p).mWrtask, (s.kernel.tasks w).frame.fresh) :
    (s.next .pass).Kept := by
  obtain ⟨hpass, hout, hcopied⟩ := Kernel.pass_reading hf hn
  have hcall : (s.kernel.tasks s.kernel.current).frame.call = some (.reader, p, f, n) := by
    rw [hf]
    rfl
  have hm : (s.kernel.reading p dst n).Moves (s.kernel.reading p dst n).served := moves_served
  obtain ⟨hdst, hsrc, hnw, hwr, hend⟩ := reading_pass_spec hq
  obtain ⟨hnr, hrd, -⟩ := h.call hcall
  have hgrows : dst.length ≤ (s.kernel.reading p dst n).served.dst.length := hm.grows
  have hnread : (s.kernel.reading p dst n).served.pipe.mNread + dst.length =
      (s.kernel.pipes p).mNread + (s.kernel.reading p dst n).served.dst.length := hm.nread
  have hsrc0 : (s.kernel.reading p dst n).src =
      ((s.kernel.pipes p).mWrtask.map fun w => (s.kernel.tasks w).frame.offered).getD [] := rfl
  have hnw0 : (s.kernel.reading p dst n).served.pipe.mNwritten +
      (s.kernel.reading p dst n).served.src.length =
      (s.kernel.pipes p).mNwritten + (s.kernel.reading p dst n).src.length := hm.nwritten
  have hshr := hm.shrinks
  refine h.copied (q := (s.kernel.reading p dst n).pass.1.pipe) ho hcall hpass hcopied hout ?_ ?_ ?_
  · obtain hd | ⟨hpos, hn', hr', hd⟩ := hend
    · refine .inl ⟨_, hd, ?_⟩
      rw [← hnr, hdst]
      simp only [SysPipe.counter]
      omega
    · refine .inr ⟨hd, _, rfl, hpos, ?_, ?_⟩
      · rw [← hnr, hdst]
        simp only [SysPipe.counter, hn']
        omega
      · simp only [SysPipe.owner, hr']
        exact hrd hn
  · intro w g m hv hfr
    obtain ⟨hcnt, -⟩ := h.call hfr
    simp only [Role.other, SysPipe.owner, SysPipe.counter] at hv hfr hcnt ⊢
    rw [hv, Option.map_some, Option.getD_some] at hsrc0
    cases hfw : (s.kernel.tasks w).frame with
    | writing q g src =>
      rw [hfw] at hfr hsrc0
      cases hfr
      cases g with
      | true =>
        refine ⟨_, rfl, ?_, fun hpos => ?_, fun _ => rfl⟩
        · rw [hnw, ← hcnt, hsrc]
          omega
        · rw [hwr]
          refine (hm.wrtask.resolve_right fun h0 => ?_).trans hv
          rw [hsrc, h0] at hpos
          exact absurd hpos (lt_irrefl _)
      | false =>
        have h0 : (s.kernel.reading p dst n).src.length = 0 := by
          rw [hsrc0]
          rfl
        refine ⟨src.length, rfl, ?_, fun _ => ?_, fun hz => ?_⟩
        · rw [hnw, ← hcnt, hsrc]
          omega
        · rw [hwr]
          rcases Nat.eq_zero_or_pos (s.kernel.reading p dst n).drained.nleft with hz | hz
          · rw [served_of_drained hz]
            exact drained_eq.2.1.trans hv
          · have := hw hz w hv
            rw [hfw] at this
            cases this
        · exact (h.call (by rw [hfw]; rfl : _ = some (Role.writer, p, false, src.length))).2.2 hz
    | own => simp [hfw, Frame.call] at hfr
    | waiting => simp [hfw, Frame.call] at hfr
    | reading => simp [hfw, Frame.call] at hfr
  · intro hv
    simp only [Role.other, SysPipe.owner, SysPipe.counter] at hv ⊢
    rw [hv] at hsrc0
    have h0 : (s.kernel.reading p dst n).src.length = 0 := by
      rw [hsrc0]
      rfl
    rw [hnw]
    omega

theorem Calls.Kept.writePass (h : s.Kept) (ho : s.kernel.Owned)
    (hf : (s.kernel.tasks s.kernel.current).frame = .writing p f src)
    (hw : ∀ r ∈ (s.kernel.pipes p).mRdtask.toOption, (s.kernel.tasks r).frame.fresh) :
    (s.next .pass).Kept := by
  obtain ⟨hpass, hout, hcopied⟩ := Kernel.pass_writing hf
  have hcall : (s.kernel.tasks s.kernel.current).frame.call =
      some (.writer, p, f, src.length) := by
    rw [hf]
    rfl
  have hm : (s.kernel.writing p src).Moves (s.kernel.writing p src).pass.1 := moves_writing_pass
  obtain ⟨hnr, hrd, -⟩ := h.call hcall
  have hshr : (s.kernel.writing p src).pass.1.src.length ≤ src.length := hm.shrinks
  have hnwritten : (s.kernel.writing p src).pass.1.pipe.mNwritten +
      (s.kernel.writing p src).pass.1.src.length =
      (s.kernel.pipes p).mNwritten + src.length := hm.nwritten
  refine h.copied (q := (s.kernel.writing p src).pass.1.pipe) ho hcall hpass hcopied hout ?_ ?_ ?_
  · by_cases hd : ∃ m, (s.kernel.writing p src).pass.2 = .done m
    · obtain ⟨m, hd⟩ := hd
      refine .inl ⟨m, hd, ?_⟩
      rw [writing_pass_returns hd, ← hnr]
      simp only [SysPipe.counter]
      omega
    · push Not at hd
      have hleft := List.length_pos_iff.mpr (writing_pass_left hd)
      refine .inr ⟨?_, _, rfl, hleft, ?_, ?_⟩
      · cases ho : (s.kernel.writing p src).pass.2 with
        | done m => exact absurd ho (hd m)
        | exits m => exact absurd ho writing_pass_not_exits
        | sleeps => exact .inl rfl
        | again => exact .inr rfl
      · rw [← hnr]
        simp only [SysPipe.counter]
        omega
      · exact (writing_pass_wrtask hd).trans (hrd (by omega))
  · intro w g m hv hfr
    obtain ⟨hcnt, -⟩ := h.call hfr
    have hfresh := hw w hv
    cases hfw : (s.kernel.tasks w).frame with
    | reading q g dst n =>
      rw [hfw] at hfr hfresh
      cases hfr
      obtain rfl : g = true := hfresh
      have hv' : (s.kernel.pipes p).mRdtask.toOption = some w := hv
      have hwant : s.kernel.wanted p = (dst, m) := by
        rw [Kernel.wanted, hv', Option.map_some, hfw]
        rfl
      have hnread : (s.kernel.writing p src).pass.1.pipe.mNread + (s.kernel.wanted p).1.length =
          (s.kernel.pipes p).mNread + (s.kernel.writing p src).pass.1.dst.length := hm.nread
      have hgrows : (s.kernel.wanted p).1.length ≤
          (s.kernel.writing p src).pass.1.dst.length := hm.grows
      refine ⟨_, rfl, ?_, fun hpos => ?_, fun _ => rfl⟩
      · rw [← hcnt]
        simp only [SysPipe.counter, Role.other]
        omega
      · obtain hsame | ⟨hz, -⟩ := hm.rdtask
        · exact (congrArg ReadTask.toOption hsame).trans hv
        · exact absurd hz hpos.ne'
    | own => simp [hfw, Frame.call] at hfr
    | waiting => simp [hfw, Frame.call] at hfr
    | writing => simp [hfw, Frame.call, Role.other] at hfr
  · intro hv
    refine writing_pass_alone (s := s.kernel.writing p src) ?_
    have hv : (s.kernel.pipes p).mRdtask.toOption = none := hv
    simp only [Kernel.writing]
    cases hr : (s.kernel.pipes p).mRdtask <;> simp_all [ReadTask.toOption, ReadTask.isTask]

end

/-- A reader that its writer has served returns. -/
theorem Calls.Kept.readBack (h : s.Kept) (ho : s.kernel.Owned) {dst : List (BitVec 8)}
    (hf : (s.kernel.tasks s.kernel.current).frame = .reading p true dst 0) :
    (s.next .pass).Kept := by
  have hcall : (s.kernel.tasks s.kernel.current).frame.call = some (.reader, p, true, 0) := by
    rw [hf]
    rfl
  have hpass : (s.next .pass).kernel = s.kernel.leave (.done (s.kernel.pipes p).mNread) .own := by
    simp only [Calls.next, Kernel.next, Kernel.pass, hf]
  have hmv : (s.next .pass).moved = s.moved := by
    funext t
    simp only [Calls.next, Kernel.copied, hf]
    rfl
  have hother : ∀ t, t ≠ s.kernel.current →
      ((s.next .pass).kernel.tasks t).frame = (s.kernel.tasks t).frame := by
    intro t ht
    rw [hpass]
    simp [Kernel.leave, Kernel.setTask, ht]
  refine h.passed ho hcall (.inl ?_) (fun w g m hne _ hfr => ?_) (fun _ => ?_) (fun t hne _ => ?_)
    (fun q _ => ?_) fun e he => ?_
  · rw [hpass]
    simp [Kernel.leave, Kernel.setTask, Task.leave, Frame.call]
  · rw [hother w hne, hmv, hpass]
    exact ⟨m, hfr, h.call hfr⟩
  · rw [hpass]
    rfl
  · exact ⟨hother t hne, by rw [hmv]⟩
  · rw [hpass]
    rfl
  · have hout : s.kernel.outcome = .done (s.kernel.pipes p).mNread := by
      simp only [Kernel.outcome, hf]
    have he : e ∈ s.ended ++ (s.kernel.outcome.ends.map fun v =>
      (v, (s.next .pass).moved s.kernel.current)).toList := he
    rw [List.mem_append, hout, hmv] at he
    obtain he | he := he
    · exact .inl he
    · right
      cases List.mem_singleton.mp he
      exact congrArg some (h.call hcall).1

theorem Calls.Kept.pass (h : s.Kept) (ho : s.kernel.Owned) (hc : s.kernel.Apart .pass)
    (hp : (s.kernel.tasks s.kernel.current).frame.inPipe) : (s.next .pass).Kept := by
  cases hf : (s.kernel.tasks s.kernel.current).frame with
  | own => simp [hf, Frame.inPipe] at hp
  | waiting => simp [hf, Frame.inPipe] at hp
  | writing p f src =>
    simp only [Kernel.Apart, hf, Kernel.PassApart] at hc
    exact h.writePass ho hf hc
  | reading p f dst n =>
    rcases Nat.eq_zero_or_pos n with rfl | hn
    · obtain rfl : f = true := (h.call (by rw [hf]; rfl : _ = some (Role.reader, p, f, 0))).2.2 rfl
      exact h.readBack ho hf
    · obtain ⟨m, rfl⟩ := Nat.exists_eq_add_one_of_ne_zero hn.ne'
      have hc : ¬ (s.kernel.reading p dst (m + 1)).Quits ∧
          (0 < (s.kernel.reading p dst (m + 1)).drained.nleft →
            ∀ w ∈ (s.kernel.pipes p).mWrtask, (s.kernel.tasks w).frame.fresh) := by
        cases f <;> simpa only [Kernel.Apart, hf, Kernel.PassApart] using hc
      exact h.readPass ho hf hn hc.1 hc.2

theorem Calls.Kept.next (h : s.Kept) (ho : s.kernel.Owned) {e : Kernel.Event τ ι}
    (he : s.kernel.Enabled e) (hc : s.kernel.Apart e) : (s.next e).Kept := by
  have hwake : ∀ p q v, (s.kernel.pipes p).SameCalls q →
      (s' : Calls τ ι) → s'.kernel = (s.kernel.setPipe p q).wake v → s'.moved = s.moved →
      s'.ended = s.ended → s'.Kept := by
    intro p q v hq s' hk hm hend
    refine h.mono hend (fun t => .inl ⟨?_, by rw [hm]⟩) fun p' => ?_
    · rw [hk]
      exact Kernel.frame_wake
    · rw [hk, Kernel.pipes_wake]
      by_cases hp : p' = p
      · subst hp
        simpa [Kernel.setPipe] using hq
      · simpa [Kernel.setPipe, hp] using SysPipe.SameCalls.refl
  have hpop : ∀ p n, (s.kernel.pipes p).SameCalls (kpopSyspipe (s.kernel.pipes p) n).1 := by
    intro p n
    unfold kpopSyspipe
    split_ifs <;> exact ⟨rfl, rfl, rfl, rfl⟩
  have hpush : ∀ p val, (s.kernel.pipes p).SameCalls (kpushSyspipe (s.kernel.pipes p) val).1 := by
    intro p val
    simp only [kpushSyspipe]
    split_ifs <;> exact ⟨rfl, rfl, rfl, rfl⟩
  cases e with
  | post events => exact h.mono rfl (fun t => .inl ⟨Task.frame_post, rfl⟩) fun _ => .refl
  | push p val => exact hwake p _ _ (hpush p val) _ rfl rfl rfl
  | pop p => exact hwake p _ _ (hpop p 1) _ rfl rfl rfl
  | popShort p => exact hwake p _ _ (hpop p 2) _ rfl rfl rfl
  | trap tr => exact h.trap (by simpa using he.2.1) hc
  | pass => exact h.pass ho hc he.2.1
  | schedule t => exact h.mono rfl (fun _ => .inl ⟨rfl, rfl⟩) fun _ => .refl

/-- While calls keep apart, each that ends has returned what it had moved, and each under way
has its counter and, with bytes still to move, its end of the pipe. -/
theorem call_returns_moved
    (h : (pipeCalls.restrict fun s e => s.kernel.Apart e).Reachable s) :
    (∀ r ∈ s.ended, r.1 = some r.2) ∧
    ∀ t r p fresh n, (s.kernel.tasks t).frame.call = some (r, p, fresh, n) →
      (s.kernel.pipes p).counter r = s.moved t ∧
      (0 < n → (s.kernel.pipes p).owner r = some t) := by
  have hk : (s.kernel.Halted ∨ s.kernel.Owned) ∧ s.Kept := by
    refine h.invariant (P := fun s => (s.kernel.Halted ∨ s.kernel.Owned) ∧ s.Kept) ?_ ?_
    · rintro s ⟨⟨hi, hp⟩, he⟩
      refine ⟨.inr (.init hp), by simp [he], fun {t _ _ _ _} ht => ?_,
        fun {t _ _ _ _ _ _ _} ht => ?_⟩
      · simp [hi.frame t, Frame.call] at ht
      · simp [hi.frame t, Frame.call] at ht
    · rintro s e ⟨hown, hs⟩ ⟨⟨he, hh⟩, hc⟩
      have ho := hown.resolve_left hh
      refine ⟨?_, hs.next ho he hc⟩
      cases e <;> exact ho.next he
  exact ⟨hk.2.ended, fun t r p fresh n ht => ⟨(hk.2.call ht).1, (hk.2.call ht).2.1⟩⟩

end

inductive TaskName
  | writer
  | first
  | second
  | idle
  deriving DecidableEq

instance : Fintype TaskName where
  elems := {.writer, .first, .second, .idle}
  complete t := by cases t <;> decide

def startKernel : Kernel TaskName Unit where
  tasks _ := ⟨.ready, 0, 0, 0, 0, .own, []⟩
  pipes _ := ⟨15, 0, 0, .none, none, 0, 0, false, fun _ => 0⟩
  fd _ _ := some ()
  addr _ := 0x4400
  idle := .idle
  current := .writer
  needResched := false
  milliseconds := 0

def startCalls : Calls TaskName Unit := ⟨startKernel, fun _ => 0, []⟩

theorem init_startCalls : pipeCalls.init startCalls :=
  ⟨⟨⟨fun _ => rfl, fun _ => rfl, fun _ => rfl, fun _ => rfl, fun _ => rfl, fun _ => rfl, rfl⟩,
    fun _ => ⟨fun _ h => (by cases h), rfl⟩⟩, rfl⟩

def readIn (n : Nat) : Kernel.Event TaskName Unit := .trap (.read 3 0x4000 (BitVec.ofNat 32 n))

def writeBytes (n : Nat) : Kernel.Event TaskName Unit :=
  .trap (.write 3 0x1000000 (BitVec.ofNat 32 n) (List.replicate n 0))

section
variable [DecidableEq τ] [DecidableEq ι] [Fintype τ]

instance (s : Reading τ) : Decidable s.Quits :=
  inferInstanceAs (Decidable (_ ∧ _ ∨ _ ∧ _))

instance (k : Kernel τ ι) (r : Role) (p : ι) : Decidable (k.Back r p) :=
  inferInstanceAs (Decidable (∀ _, _))

instance Kernel.decidablePassApart (k : Kernel τ ι) :
    (f : Frame ι) → Decidable (k.PassApart f)
  | .reading _ true _ 0 | .own | .waiting _ => .isTrue trivial
  | .reading p true dst (n + 1) =>
    inferInstanceAs (Decidable (¬ (k.reading p dst (n + 1)).Quits ∧ (_ → _)))
  | .reading p false dst n => inferInstanceAs (Decidable (¬ (k.reading p dst n).Quits ∧ (_ → _)))
  | .writing p _ _ =>
    inferInstanceAs (Decidable (∀ r ∈ (k.pipes p).mRdtask.toOption, (k.tasks r).frame.fresh = true))

instance Kernel.decidableApart (k : Kernel τ ι) : (e : Kernel.Event τ ι) → Decidable (k.Apart e)
  | .trap (.read fd dst len) => inferInstanceAs (Decidable (∀ p ∈ k.lookup fd,
      (kreadSyspipe (k.pipes p) k.current len.toInt (validRamRegion dst len)).refused = none →
      k.Back .reader p))
  | .trap (.write fd src len _) => inferInstanceAs (Decidable (∀ p ∈ k.lookup fd,
      (kwriteSyspipe (k.pipes p) k.current len.toInt (validMemRegion src len)).refused = none →
      k.Back .writer p))
  | .pass => inferInstanceAs (Decidable (k.PassApart (k.tasks k.current).frame))
  | .trap (.wait ..) | .trap (.clear _) | .trap (.post _) | .trap .yield | .trap (.result _)
  | .trap .exit | .post _ | .push .. | .pop _ | .popShort _ | .schedule _ => .isTrue trivial

instance (s : Calls τ ι) (e : Kernel.Event τ ι) : Decidable (pipeCalls.allowed s e) :=
  inferInstanceAs (Decidable (halting.allowed s.kernel e))

instance (s : Calls τ ι) (e : Kernel.Event τ ι) :
    Decidable ((pipeCalls.restrict fun s e => s.kernel.Apart e).allowed s e) :=
  inferInstanceAs (Decidable (pipeCalls.allowed s e ∧ s.kernel.Apart e))

end

/-- A reader waits for a byte, and a writer hands it over. -/
def handedOver : List (Kernel.Event TaskName Unit) :=
  [.trap .yield, .schedule .first, readIn 1, .schedule .writer, writeBytes 1, .schedule .first,
    .pass, .trap .yield, .schedule .writer, .pass]

theorem call_returns_moved_handedOver :
    (∀ r ∈ (handedOver.foldl Calls.next startCalls).ended, r.1 = some r.2) ∧
    ∀ t r p fresh n,
      ((handedOver.foldl Calls.next startCalls).kernel.tasks t).frame.call =
        some (r, p, fresh, n) →
      ((handedOver.foldl Calls.next startCalls).kernel.pipes p).counter r =
        (handedOver.foldl Calls.next startCalls).moved t ∧
      (0 < n → ((handedOver.foldl Calls.next startCalls).kernel.pipes p).owner r = some t) :=
  call_returns_moved ((System.reachable_init
    (M := pipeCalls.restrict fun s e => s.kernel.Apart e) init_startCalls).foldl
    (by decide +kernel))

/-- The first reader gets four bytes from the writer, and the second begins its call before the
first returns. -/
def readAgain : List (Kernel.Event TaskName Unit) :=
  [writeBytes 15, .pass, writeBytes 5, .schedule .first, readIn 4, .schedule .writer, .pass,
    .schedule .second, readIn 1, .schedule .first, .pass]

theorem readAgain_resets_counter : ∃ s : Calls TaskName Unit, pipeCalls.Reachable s ∧
    ((some 0, 4) : Option Nat × Nat) ∈ s.ended ∧ ¬ ∀ r ∈ s.ended, r.1 = some r.2 := by
  have hmem : ((some 0, 4) : Option Nat × Nat) ∈ (readAgain.foldl Calls.next startCalls).ended := by
    decide +kernel
  refine ⟨readAgain.foldl Calls.next startCalls,
    (System.reachable_init init_startCalls).foldl (by decide +kernel), hmem, fun h => ?_⟩
  exact absurd (h _ hmem) (by decide)

end S6Soc.ZipOS
