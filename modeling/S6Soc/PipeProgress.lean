import Mathlib
import S6Soc.PipeWakeups

/-! Iterations of `uwrite_syspipe`: each moves a byte or blocks, or the task that makes it keeps
the processor for nothing. -/
namespace S6Soc.ZipOS
open Clocked

variable {τ ι : Type}

/-- No reader takes any of the bytes, and the ring has room, but not for all of them. -/
structure Writing.Cramped (s : Writing τ) : Prop where
  interrupt : s.pipe.mRdtask.isInterrupt = false
  want : s.pipe.mRdtask.isTask → s.want = 0
  some_room : 0 < numAvailSyspipe s.pipe
  too_little : numAvailSyspipe s.pipe < s.src.length

section
variable {s : Writing τ} {r : ReadTask τ} {n : Nat}

/-- Storing into a ring with room takes a byte at least: the head is inside the buffer. -/
theorem store_shrinks (hp : s.pipe.Placed) (hn : 0 < n) (hs : s.src ≠ []) :
    (s.store n).src.length < s.src.length := by
  have hh := hp.head
  have hl := List.length_pos_iff.mpr hs
  simp only [Writing.store, List.length_drop]
  omega

theorem direct_ring : numAvailSyspipe s.direct.pipe = numAvailSyspipe s.pipe := by
  unfold Writing.direct
  split <;> rfl

theorem direct_length (h : s.direct.src.length = s.src.length) (hs : s.src ≠ [])
    (ht : s.pipe.mRdtask.isTask) : s.want = 0 := by
  have hl := List.length_pos_iff.mpr hs
  unfold Writing.direct at h
  cases hr : s.pipe.mRdtask with
  | task t =>
    simp only [hr, List.length_drop] at h
    omega
  | none => simp [hr, ReadTask.isTask] at ht
  | interrupt => simp [hr, ReadTask.isTask] at ht

theorem direct_of_unwanted (hw : s.pipe.mRdtask.isTask → s.want = 0) :
    s.direct.src = s.src ∧ s.direct.pipe.mRdtask.isTask = false := by
  unfold Writing.direct
  cases hr : s.pipe.mRdtask with
  | task t => simp [hw (by rw [hr]; rfl), ReadTask.isTask]
  | none => exact ⟨rfl, by rw [hr]; rfl⟩
  | interrupt => exact ⟨rfl, by rw [hr]; rfl⟩

theorem unwanted_isNone (hi : s.pipe.mRdtask.isInterrupt = false)
    (hw : s.pipe.mRdtask.isTask → s.want = 0) : s.direct.pipe.mRdtask.isNone := by
  have ht := (direct_of_unwanted hw).2
  have hi' : s.direct.pipe.mRdtask.isInterrupt ≠ true := fun h => by
    rw [keeps_writing_direct.interrupt h] at hi
    cases hi
  cases hr : s.direct.pipe.mRdtask with
  | none => rfl
  | task t => simp [hr, ReadTask.isTask] at ht
  | interrupt => simp [hr, ReadTask.isInterrupt] at hi'

/-- The rest of a pass stores a byte, or the ring is full, or it has too little room and no
interrupt drains it. -/
theorem fillBody_idle (hp : s.pipe.Placed) (hs : s.src ≠ [])
    (hl : s.src.length ≤ (s.fillBody r).1.src.length) :
    (s.fillBody r).1 = s ∧
      (numAvailSyspipe s.pipe = 0 ∧ (s.fillBody r).2 = none ∨
        r.isInterrupt = false ∧ 0 < numAvailSyspipe s.pipe ∧
          numAvailSyspipe s.pipe < s.src.length ∧ (s.fillBody r).2 = some .again) := by
  have hpos := List.length_pos_iff.mpr hs
  by_cases hfits : s.src.length ≤ numAvailSyspipe s.pipe ∨
      r.isInterrupt ∧ 0 < numAvailSyspipe s.pipe
  · have hroom : 0 < numAvailSyspipe s.pipe := by
      obtain h | h := hfits
      · omega
      · exact h.2
    have hlt := store_shrinks hp hroom hs
    have hle : (s.fillBody r).1.src.length ≤
        (s.store (numAvailSyspipe s.pipe)).src.length := by
      simp only [Writing.fillBody, if_pos hfits]
      split_ifs <;> exact le_refl _
    omega
  · simp only [Writing.fillBody, if_neg hfits, if_neg hs]
    obtain ⟨hsmall, hint⟩ := not_or.mp hfits
    rcases Nat.eq_zero_or_pos (numAvailSyspipe s.pipe) with h0 | h0
    · simp [h0]
    · have hi : r.isInterrupt = false := Bool.eq_false_iff.mpr fun h => hint ⟨h, h0⟩
      refine ⟨by rw [if_pos h0.ne'], .inr ⟨hi, h0, by omega, by rw [if_pos h0.ne']⟩⟩

theorem fillBody_shrinks : (s.fillBody r).1.src.length ≤ s.src.length := by
  have h := (fill_moves (s := s) (d := r)).2.2.2.2.1
  rw [fill_body] at h
  exact h

theorem fillBody_ends : (s.fillBody r).2 = none ∨ (s.fillBody r).2 = some .again ∨
    ∃ n, (s.fillBody r).2 = some (.done n) := by
  unfold Writing.fillBody
  dsimp only
  split_ifs
  · exact .inr (.inr ⟨_, rfl⟩)
  · exact .inr (.inl rfl)
  · exact .inl rfl
  · exact .inr (.inr ⟨_, rfl⟩)
  · exact .inr (.inl rfl)
  · exact .inl rfl

theorem body_ends :
    s.body.2 = none ∨ s.body.2 = some .again ∨ ∃ n, s.body.2 = some (.done n) := by
  unfold Writing.body
  dsimp only
  split_ifs
  · exact .inr (.inr ⟨_, rfl⟩)
  · exact fillBody_ends

/-- A pass that moves nothing finds the ring full, or cramped. -/
theorem body_idle (hp : s.pipe.Placed) (hs : s.src ≠ [])
    (hl : s.src.length ≤ s.body.1.src.length) :
    s.body.1 = s.direct ∧ s.direct.src = s.src ∧ (s.pipe.mRdtask.isTask → s.want = 0) ∧
      (numAvailSyspipe s.pipe = 0 ∧ s.body.2 = none ∨ s.Cramped) := by
  have hpos := List.length_pos_iff.mpr hs
  have hd : s.direct.src.length ≤ s.src.length := (moves_writing_direct (s := s)).shrinks
  by_cases hc : s.pipe.mRdtask.isTask ∧ s.direct.src = []
  · have h0 : s.body.1.src = [] := by
      rw [Writing.body]
      simp only [if_pos hc]
      exact hc.2
    rw [h0] at hl
    exact absurd (hpos.trans_le hl) (lt_irrefl _)
  · have hb : s.body = s.direct.fillBody s.pipe.mRdtask := by
      rw [Writing.body]
      exact if_neg hc
    rw [hb] at hl ⊢
    have hf := fillBody_shrinks (s := s.direct) (r := s.pipe.mRdtask)
    have heq : s.direct.src.length = s.src.length := le_antisymm hd (hl.trans hf)
    have hw := direct_length heq hs
    have hsrc := (direct_of_unwanted hw).1
    obtain ⟨hsame, h⟩ := fillBody_idle (keeps_writing_direct.placed hp)
      (by rw [hsrc]; exact hs) (heq.le.trans hl)
    rw [direct_ring, heq] at h
    refine ⟨hsame, hsrc, hw, h.imp id fun h => ?_⟩
    exact ⟨h.1, hw, h.2.1, h.2.2.1⟩

theorem cramped_body (h : s.Cramped) : s.body = (s.direct, some .again) := by
  obtain ⟨hsrc, -⟩ := direct_of_unwanted h.want
  have hs : s.src ≠ [] := by
    intro h0
    have := h.too_little
    rw [h0] at this
    exact absurd this (Nat.not_lt_zero _)
  have hc : ¬ (s.pipe.mRdtask.isTask ∧ s.direct.src = []) := fun hc => hs (hsrc ▸ hc.2)
  have hfits : ¬ (s.direct.src.length ≤ numAvailSyspipe s.direct.pipe ∨
      s.pipe.mRdtask.isInterrupt ∧ 0 < numAvailSyspipe s.direct.pipe) := by
    rw [hsrc, direct_ring, h.interrupt]
    have := h.too_little
    simp
    omega
  have hroom : numAvailSyspipe s.direct.pipe ≠ 0 := by
    rw [direct_ring]
    exact h.some_room.ne'
  have hleft : s.direct.src ≠ [] := by
    rw [hsrc]
    exact hs
  simp only [Writing.body, if_neg hc, Writing.fillBody, if_neg hfits, if_neg hleft, if_pos hroom]

theorem body_full (hr : s.pipe.mRdtask = .interrupt) (h0 : numAvailSyspipe s.pipe = 0)
    (hs : s.src ≠ []) : s.body = (s, none) := by
  have hd : s.direct = s := writing_direct_of_not_task (by rw [hr]; rfl)
  have hfits : ¬ (s.src.length ≤ numAvailSyspipe s.pipe ∨
      s.pipe.mRdtask.isInterrupt ∧ 0 < numAvailSyspipe s.pipe) := by
    have := List.length_pos_iff.mpr hs
    omega
  simp only [Writing.body, hd, hs, and_false, if_false, Writing.fillBody, if_neg hfits]
  simp [h0]

theorem body_empty (hs : s.src = []) : ∃ n, s.body.2 = some (.done n) := by
  have hd : s.direct.src = [] := by
    have := (moves_writing_direct (s := s)).shrinks
    rw [hs] at this
    exact List.length_eq_zero_iff.mp (Nat.le_zero.mp this)
  unfold Writing.body
  dsimp only
  split_ifs
  · exact ⟨_, rfl⟩
  · refine ⟨(s.direct.store (numAvailSyspipe s.direct.pipe)).pipe.mNwritten, ?_⟩
    simp [Writing.fillBody, hd, Writing.store, Writing.finish]

end

/-- What the interrupt handler does, whatever task runs. -/
def Kernel.Event.fromHandler : Kernel.Event τ ι → Bool
  | .post _ | .push .. | .pop _ | .popShort _ => true
  | .trap _ | .pass | .schedule _ => false

section
variable [DecidableEq τ] [DecidableEq ι]

/-- An iteration of the running task's loop, with what the interrupt handler does between its
copying and its test. -/
def PipeUser.iterate (s : PipeUser τ ι) (handled : List (Kernel.Event τ ι)) : PipeUser τ ι :=
  if s.pass.stage = .loop then s.pass
  else PipeUser.next ((handled.map .kernel).foldl PipeUser.next s.pass) .test

/-- The bytes that the running task has still to write. -/
def PipeUser.left (s : PipeUser τ ι) : Option Nat :=
  match (s.kernel.tasks s.kernel.current).frame with
  | .writing _ _ src => some src.length
  | .own | .waiting _ | .reading .. => none

/-- An iteration of `uwrite_syspipe` is about to trap to `wait(0,-1)`, or the call has returned,
or fewer bytes are left. -/
def PipeUser.Progresses (s : PipeUser τ ι) (handled : List (Kernel.Event τ ι)) : Prop :=
  (s.iterate handled).stage = .waits ∨ ∀ m ∈ (s.iterate handled).left, ∀ n ∈ s.left, m < n

variable {s : PipeUser τ ι} {k k' : Kernel τ ι} {e : Kernel.Event τ ι} {p : ι} {f : Bool}
  {src : List (BitVec 8)} {handled : List (Kernel.Event τ ι)}

omit [DecidableEq τ] in
theorem placed_update {q : SysPipe τ} (hp : ∀ p, (k.pipes p).Placed) (hq : q.Placed) (p' : ι) :
    (Function.update k.pipes p q p').Placed := by
  by_cases h : p' = p
  · subst h
    rwa [Function.update_self]
  · rw [Function.update_of_ne h]
    exact hp p'

theorem placed_served {q : SysPipe τ} {v : Option τ} (hp : ∀ p, (k.pipes p).Placed)
    (hq : q.Placed) (p' : ι) : (((k.setPipe p q).wake v).pipes p').Placed := by
  rw [Kernel.pipes_wake]
  exact placed_update hp hq p'

theorem placed_trap (hp : ∀ p, (k.pipes p).Placed) (tr : Trap) (p : ι) :
    ((k.trap tr).pipes p).Placed := by
  cases tr with
  | read fd dst len =>
    simp only [Kernel.trap]
    split
    · exact hp p
    · rw [Kernel.pipes_enter]
      exact placed_update hp (kread_ring (hp _)).1 p
  | write fd src len bytes =>
    simp only [Kernel.trap]
    split
    · exact hp p
    · rw [Kernel.pipes_enter]
      exact placed_update hp (kwrite_placed (hp _)) p
  | wait => exact hp p
  | clear => exact hp p
  | post => exact hp p
  | yield => exact hp p
  | result => exact hp p
  | exit => exact hp p

theorem placed_pass (hp : ∀ p, (s.kernel.pipes p).Placed) (p : ι) :
    (s.pass.kernel.pipes p).Placed := by
  unfold PipeUser.pass
  dsimp only
  split
  · exact hp p
  · rw [Kernel.pipes_leave]
    exact placed_update hp (keeps_reading_body.placed (hp _)) p
  · rw [Kernel.pipes_leave]
    exact placed_update hp (keeps_writing_body.placed (hp _)) p
  · exact hp p
  · exact hp p

theorem placed_of_reachable (h : pipeUser.Reachable s) : ∀ p, (s.kernel.pipes p).Placed := by
  refine h.invariant (P := fun s => ∀ p, (s.kernel.pipes p).Placed)
    (fun s hi p => (hi.2.2 p).2) fun s e hp _ => ?_
  cases e with
  | test => exact hp
  | block => exact hp
  | kernel e =>
    cases e with
    | post events => exact hp
    | pass => exact placed_pass hp
    | schedule t => exact hp
    | trap tr => exact placed_trap hp tr
    | push p val => exact placed_served hp (kpush_spec (hp p)).1
    | pop p => exact placed_served hp (kpop_spec (hp p)).1
    | popShort p => exact placed_served hp (kpop_spec (hp p)).1

omit [DecidableEq τ] [DecidableEq ι] in
theorem kpush_rdtask {q : SysPipe τ} {val : BitVec 8} :
    (kpushSyspipe q val).1.mRdtask = q.mRdtask := by
  simp only [kpushSyspipe]
  split_ifs <;> rfl

omit [DecidableEq τ] [DecidableEq ι] in
theorem kpop_rdtask {q : SysPipe τ} {n : Nat} : (kpopSyspipe q n).1.mRdtask = q.mRdtask := by
  unfold kpopSyspipe
  split_ifs <;> rfl

theorem handled_next (he : e.fromHandler) : (k.next e).current = k.current ∧
    (∀ t, ((k.next e).tasks t).frame = (k.tasks t).frame) ∧
    ∀ p, ((k.next e).pipes p).mRdtask = (k.pipes p).mRdtask := by
  have hserve : ∀ (p : ι) (q : SysPipe τ) (v : Option τ), q.mRdtask = (k.pipes p).mRdtask →
      ((k.setPipe p q).wake v).current = k.current ∧
      (∀ t, (((k.setPipe p q).wake v).tasks t).frame = (k.tasks t).frame) ∧
      ∀ p', (((k.setPipe p q).wake v).pipes p').mRdtask = (k.pipes p').mRdtask := by
    intro p q v hq
    refine ⟨by cases v <;> rfl, fun t => Kernel.frame_wake, fun p' => ?_⟩
    rw [Kernel.pipes_wake]
    by_cases h : p' = p
    · subst h
      simpa [Kernel.setPipe] using hq
    · simp [Kernel.setPipe, h]
  cases e with
  | post events => exact ⟨rfl, fun t => Task.frame_post, fun p => rfl⟩
  | push p val => exact hserve p _ _ kpush_rdtask
  | pop p => exact hserve p _ _ kpop_rdtask
  | popShort p => exact hserve p _ _ kpop_rdtask
  | trap tr => cases he
  | pass => cases he
  | schedule t => cases he

/-- What becomes of a pipe does not depend on the rest. -/
theorem handled_pipe (he : e.fromHandler) (hk : k.pipes p = k'.pipes p) :
    (k.next e).pipes p = (k'.next e).pipes p := by
  have hserve : ∀ (p₁ : ι) (g : SysPipe τ → SysPipe τ × Option τ),
      ((k.setPipe p₁ (g (k.pipes p₁)).1).wake (g (k.pipes p₁)).2).pipes p =
        ((k'.setPipe p₁ (g (k'.pipes p₁)).1).wake (g (k'.pipes p₁)).2).pipes p := by
    intro p₁ g
    rw [Kernel.pipes_wake, Kernel.pipes_wake]
    by_cases h : p = p₁
    · subst h
      simp [Kernel.setPipe, hk]
    · simp [Kernel.setPipe, h, hk]
  cases e with
  | post events => exact hk
  | push p₁ val => exact hserve p₁ fun q => kpushSyspipe q val
  | pop p₁ => exact hserve p₁ fun q => kpopSyspipe q 1
  | popShort p₁ => exact hserve p₁ fun q => kpopSyspipe q 2
  | trap tr => cases he
  | pass => cases he
  | schedule t => cases he

theorem handled_foldl (he : ∀ e ∈ handled, e.fromHandler) (k : Kernel τ ι) :
    (handled.foldl Kernel.next k).current = k.current ∧
    (∀ t, ((handled.foldl Kernel.next k).tasks t).frame = (k.tasks t).frame) ∧
    ∀ p, ((handled.foldl Kernel.next k).pipes p).mRdtask = (k.pipes p).mRdtask := by
  induction handled generalizing k with
  | nil => exact ⟨rfl, fun _ => rfl, fun _ => rfl⟩
  | cons e es ih =>
    obtain ⟨hc, hf, hr⟩ := ih (fun e' h => he e' (List.mem_cons_of_mem _ h)) (k.next e)
    obtain ⟨hc', hf', hr'⟩ := handled_next (k := k) (he e List.mem_cons_self)
    exact ⟨hc.trans hc', fun t => (hf t).trans (hf' t), fun p => (hr p).trans (hr' p)⟩

theorem handled_pipe_foldl (he : ∀ e ∈ handled, e.fromHandler) (hk : k.pipes p = k'.pipes p) :
    (handled.foldl Kernel.next k).pipes p = (handled.foldl Kernel.next k').pipes p := by
  induction handled generalizing k k' with
  | nil => exact hk
  | cons e es ih =>
    exact ih (fun e' h => he e' (List.mem_cons_of_mem _ h))
      (handled_pipe (he e List.mem_cons_self) hk)

theorem foldl_handled (he : ∀ e ∈ handled, e.fromHandler) (s : PipeUser τ ι) :
    (handled.map .kernel).foldl PipeUser.next s =
      { s with kernel := handled.foldl Kernel.next s.kernel } := by
  induction handled generalizing s with
  | nil => rfl
  | cons e es ih =>
    have hs : s.next (.kernel e) = { s with kernel := s.kernel.next e } := by
      have := he e List.mem_cons_self
      cases e <;> first | rfl | cases this
    rw [List.map_cons, List.foldl_cons, hs, ih fun e' h => he e' (List.mem_cons_of_mem _ h)]
    rfl

theorem body_pass (hf : (s.kernel.tasks s.kernel.current).frame = .writing p f src) :
    s.pass.kernel.pipes p = (s.kernel.writing p src).body.1.pipe ∧
    s.pass.stage = if (s.kernel.writing p src).body.2 = none
      then .writes (s.kernel.pipes p).mRdtask.isInterrupt else .loop := by
  simp only [PipeUser.pass, hf]
  exact ⟨by rw [Kernel.pipes_leave, Function.update_self], trivial⟩

/-- A task that goes on has what the copying has left. -/
theorem left_pass (hf : (s.kernel.tasks s.kernel.current).frame = .writing p f src)
    (hd : ∀ n, (s.kernel.writing p src).body.2 ≠ some (.done n)) :
    (s.pass.kernel.tasks s.pass.kernel.current).frame =
      .writing p false (s.kernel.writing p src).body.1.src := by
  simp only [PipeUser.pass, hf]
  rw [Kernel.current_leave]
  refine Kernel.frame_current_passed (fun n hn => ?_) fun n hn => ?_
  · obtain h | h | ⟨m, h⟩ := body_ends (s := s.kernel.writing p src)
    · rw [h] at hn
      cases hn
    · rw [h] at hn
      cases hn
    · exact hd m h
  · obtain h | h | ⟨m, h⟩ := body_ends (s := s.kernel.writing p src) <;> rw [h] at hn <;> cases hn

theorem left_done {n : Nat} (hf : (s.kernel.tasks s.kernel.current).frame = .writing p f src)
    (hd : (s.kernel.writing p src).body.2 = some (.done n)) : s.pass.left = none := by
  have hframe : (s.pass.kernel.tasks s.pass.kernel.current).frame = .own := by
    simp only [PipeUser.pass, hf, hd]
    simp [Kernel.leave, Kernel.setTask, Task.leave]
  rw [PipeUser.left, hframe]

/-- The test of a writer, once the interrupt handler has been served. -/
theorem iterate_tests (hf : (s.kernel.tasks s.kernel.current).frame = .writing p f src)
    (hb : (s.kernel.writing p src).body.2 = none) (he : ∀ e ∈ handled, e.fromHandler) :
    (s.iterate handled).left = some (s.kernel.writing p src).body.1.src.length ∧
    ((s.iterate handled).stage = .waits ↔ ((handled.foldl Kernel.next s.pass.kernel).pipes p).Stuck
      (s.kernel.pipes p).mRdtask.isInterrupt) := by
  obtain ⟨-, hstage⟩ := body_pass hf
  rw [if_pos hb] at hstage
  obtain ⟨hc, hfr, -⟩ := handled_foldl he s.pass.kernel
  have hframe := left_pass hf fun n => by rw [hb]; exact Option.some_ne_none _ ∘ Eq.symm
  have hloop : s.pass.stage ≠ .loop := by
    rw [hstage]
    exact Stage.noConfusion
  rw [← hfr, ← hc] at hframe
  have hit : s.iterate handled = ⟨handled.foldl Kernel.next s.pass.kernel,
      if ((handled.foldl Kernel.next s.pass.kernel).pipes p).Stuck
        (s.kernel.pipes p).mRdtask.isInterrupt then .waits else .loop⟩ := by
    rw [PipeUser.iterate, if_neg hloop, foldl_handled he]
    simp only [PipeUser.next, hframe, hstage]
    rfl
  rw [hit]
  refine ⟨by rw [PipeUser.left, hframe], ?_⟩
  dsimp only
  split_ifs with ht
  · exact ⟨fun _ => ht, fun _ => rfl⟩
  · exact ⟨fun h => (by cases h), fun h => absurd h ht⟩

theorem iterate_loop (hf : (s.kernel.tasks s.kernel.current).frame = .writing p f src)
    (hb : (s.kernel.writing p src).body.2 ≠ none) :
    (s.iterate handled).left = s.pass.left ∧ (s.iterate handled).stage = .loop := by
  obtain ⟨-, hstage⟩ := body_pass hf
  rw [if_neg hb] at hstage
  rw [PipeUser.iterate, if_pos hstage]
  exact ⟨rfl, hstage⟩

omit [DecidableEq τ] [DecidableEq ι] in
theorem left_writing (hf : (s.kernel.tasks s.kernel.current).frame = .writing p f src) :
    s.left = some src.length := by
  rw [PipeUser.left, hf]

/-- Copying that takes bytes is progress, whatever the test says. -/
theorem progresses_of_moved (hf : (s.kernel.tasks s.kernel.current).frame = .writing p f src)
    (hm : (s.kernel.writing p src).body.1.src.length < src.length)
    (he : ∀ e ∈ handled, e.fromHandler) : s.Progresses handled := by
  refine .inr fun m hm' n hn => ?_
  rw [left_writing hf] at hn
  cases hn
  obtain hb | hb | ⟨k, hb⟩ := body_ends (s := s.kernel.writing p src)
  · rw [(iterate_tests hf hb he).1] at hm'
    cases hm'
    exact hm
  · rw [(iterate_loop hf (by rw [hb]; simp)).1, PipeUser.left,
      left_pass hf (by rw [hb]; simp)] at hm'
    cases hm'
    exact hm
  · rw [(iterate_loop hf (by rw [hb]; simp)).1, left_done hf hb] at hm'
    cases hm'

/-- An iteration of `uwrite_syspipe` moves a byte, or goes to sleep, unless the ring has room but
not for all that is left, or the interrupt handler makes room in a full one before the test. -/
theorem iteration_progresses_iff (h : pipeUser.Reachable s)
    (hf : (s.kernel.tasks s.kernel.current).frame = .writing p f src)
    (he : ∀ e ∈ handled, e.fromHandler) :
    s.Progresses handled ↔ ¬ (s.kernel.writing p src).Cramped ∧
      (src ≠ [] → (s.kernel.pipes p).mRdtask = .interrupt →
        numAvailSyspipe (s.kernel.pipes p) = 0 →
        numAvailSyspipe ((handled.foldl Kernel.next s.kernel).pipes p) = 0) := by
  have hp : (s.kernel.writing p src).pipe.Placed := placed_of_reachable h p
  constructor
  · intro hprog
    refine ⟨fun hc => ?_, fun hs hr h0 => ?_⟩
    · -- The pass ends with `again`, the bytes all there.
      have hb := cramped_body hc
      have hleft : (s.iterate handled).left = some src.length := by
        rw [(iterate_loop hf (by rw [hb]; simp)).1, PipeUser.left, left_pass hf (by rw [hb]; simp),
          hb]
        exact congrArg (fun l => some l.length) (direct_of_unwanted hc.want).1
      obtain hw | hlt := hprog
      · rw [(iterate_loop hf (by rw [hb]; simp)).2] at hw
        cases hw
      · exact absurd (hlt _ hleft _ (left_writing hf)) (lt_irrefl _)
    · have hb := body_full (s := s.kernel.writing p src) hr h0 hs
      obtain ⟨hleft, hstage⟩ := iterate_tests hf (by rw [hb]) he
      obtain hw | hlt := hprog
      · have hpipe : s.pass.kernel.pipes p = s.kernel.pipes p := by
          rw [(body_pass hf).1, hb]
          rfl
        have hstuck := hstage.mp hw
        rw [handled_pipe_foldl he hpipe, hr] at hstuck
        exact hstuck
      · rw [hb] at hleft
        exact absurd (hlt _ hleft _ (left_writing hf)) (lt_irrefl _)
  · rintro ⟨hc, hroom⟩
    by_cases hs : src = []
    · obtain ⟨n, hb⟩ := body_empty (s := s.kernel.writing p src) hs
      refine .inr fun m hm => ?_
      rw [(iterate_loop hf (by rw [hb]; simp)).1, left_done hf hb] at hm
      cases hm
    · rcases Nat.lt_or_ge (s.kernel.writing p src).body.1.src.length src.length with hm | hm
      · exact progresses_of_moved hf hm he
      · obtain ⟨hsame, -, hwant, ⟨h0, hb⟩ | hcr⟩ := body_idle hp hs hm
        · obtain ⟨-, hstage⟩ := iterate_tests hf hb he
          refine .inl (hstage.mpr ?_)
          cases hr : (s.kernel.pipes p).mRdtask.isInterrupt with
          | true =>
            have hr : (s.kernel.pipes p).mRdtask = .interrupt := by
              cases hrd : (s.kernel.pipes p).mRdtask <;> simp_all [ReadTask.isInterrupt]
            have hpipe : s.pass.kernel.pipes p = s.kernel.pipes p := by
              rw [(body_pass hf).1, body_full (s := s.kernel.writing p src) hr h0 hs]
              rfl
            rw [handled_pipe_foldl he hpipe]
            exact hroom hs hr h0
          | false =>
            have hrd := (handled_foldl he s.pass.kernel).2.2 p
            rw [(body_pass hf).1, hsame] at hrd
            change ReadTask.isNone _
            rw [hrd]
            exact unwanted_isNone (s := s.kernel.writing p src) hr hwant
        · exact absurd hcr hc

/-- With nobody at the read end, every pass of a cramped writer is the same again. -/
theorem cramped_stays (hl : s.stage = .loop)
    (hf : (s.kernel.tasks s.kernel.current).frame = .writing p false src)
    (hr : (s.kernel.pipes p).mRdtask = .none) (hc : (s.kernel.writing p src).Cramped) :
    s.pass = s := by
  have hd : (s.kernel.writing p src).direct = s.kernel.writing p src :=
    writing_direct_of_not_task (by simp [Kernel.writing, hr, ReadTask.isTask])
  have hb := cramped_body hc
  rw [hd] at hb
  have hset : s.kernel.setPipe p (s.kernel.pipes p) = s.kernel := by simp [Kernel.setPipe]
  have hleave : s.kernel.leave .again (.writing p false src) = s.kernel := by
    simp only [Kernel.leave, Kernel.setTask, Task.leave]
    rw [← hf]
    simp
  simp only [PipeUser.pass, hf, hb, hr]
  change PipeUser.mk (((s.kernel.setPipe p (s.kernel.pipes p)).partner none _ _).leave .again
    (.writing p false src)) Stage.loop = s
  rw [hset, Kernel.partner, hleave, ← hl]

end

/-- Ten of fifteen cells are taken, and ten more bytes are to be written. -/
def partlyFull : List (PipeUser.Event TaskName Unit) :=
  [.kernel (writeBytes 10), .kernel .pass, .kernel (writeBytes 10), .kernel .pass]

/-- The last five bytes fit. -/
def filled : List (PipeUser.Event TaskName Unit) :=
  [.kernel (writeBytes 10), .kernel .pass, .kernel (writeBytes 5)]

theorem iteration_progresses_iff_filled :
    PipeUser.Progresses (filled.foldl PipeUser.next startUser) [] := by
  have hf : ((filled.foldl PipeUser.next startUser).kernel.tasks
      (filled.foldl PipeUser.next startUser).kernel.current).frame =
        .writing () true (List.replicate 5 0) := by decide +kernel
  refine (iteration_progresses_iff ((System.reachable_init (M := pipeUser) init_startUser).foldl
    (by decide +kernel)) hf (by simp)).mpr ⟨fun hc => ?_, fun _ hr => ?_⟩
  · exact absurd hc.too_little (by decide +kernel)
  · exact absurd hr (by decide +kernel)

theorem partlyFull_spins : ∃ s : PipeUser TaskName Unit, pipeUser.Reachable s ∧
    (s.kernel.tasks s.kernel.current).frame = .writing () false (List.replicate 10 0) ∧
    (s.kernel.tasks s.kernel.current).state = .ready ∧ ¬ s.Progresses [] ∧ s.pass = s ∧
    ∀ t, ¬ s.Enabled (.kernel (.schedule t)) := by
  have hr : pipeUser.Reachable (partlyFull.foldl PipeUser.next startUser) :=
    (System.reachable_init init_startUser).foldl (by decide +kernel)
  have hf : ((partlyFull.foldl PipeUser.next startUser).kernel.tasks
      (partlyFull.foldl PipeUser.next startUser).kernel.current).frame =
        .writing () false (List.replicate 10 0) := by decide +kernel
  have hs : (partlyFull.foldl PipeUser.next startUser).pass =
      partlyFull.foldl PipeUser.next startUser := by
    refine cramped_stays (by decide +kernel) hf (by decide +kernel) ⟨by decide +kernel, ?_,
      by decide +kernel, by decide +kernel⟩
    intro h
    exact absurd h (by decide +kernel)
  refine ⟨_, hr, hf, by decide +kernel, ?_, hs, by decide +kernel⟩
  have hi : (partlyFull.foldl PipeUser.next startUser).iterate [] =
      partlyFull.foldl PipeUser.next startUser := by
    rw [PipeUser.iterate, hs]
    exact if_pos (by decide +kernel)
  intro h
  rw [PipeUser.Progresses, hi, left_writing hf] at h
  obtain hw | hlt := h
  · exact absurd hw (by decide +kernel)
  · exact absurd (hlt _ rfl _ rfl) (lt_irrefl _)

end S6Soc.ZipOS
