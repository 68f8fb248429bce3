import Mathlib
import S6Soc.KernelClear
import S6Soc.PipeEnds

/-! A timed wait lasts its time: no task is woken from `wait(mask, t)` before `t` ticks or an
event in `mask`, as long as no timeout is pending when it falls asleep or posted to it. -/
namespace S6Soc.ZipOS
open Clocked

variable {τ ι : Type}

def Kernel.Event.isTick : Kernel.Event τ ι → Bool
  | .post events => events &&& INT_TIMER ≠ 0
  | _ => false

def ticks (es : List (Kernel.Event τ ι)) : Nat := es.countP Kernel.Event.isTick

section
variable [DecidableEq τ] [DecidableEq ι]

/-- `t` sleeps from `k` until the last of the events has happened. -/
def Kernel.Sleeps (k : Kernel τ ι) (t : τ) : List (Kernel.Event τ ι) → Prop
  | [] => (k.tasks t).state = .waiting
  | e :: es => (k.tasks t).state = .waiting ∧ (k.next e).Sleeps t es

end

/-- In a WAIT trap, but not for `SWINT_TIMEOUT`. -/
def Frame.waitsForOther : Frame ι → Bool
  | .waiting mask => !mask.getLsbD 16
  | _ => false

/-- In a timed wait for other events than `SWINT_TIMEOUT`. -/
def Task.TimedWait (t : Task ι) : Prop :=
  t.state = .waiting ∧ t.waitsig.getLsbD 16 ∧ t.frame.waitsForOther

/-- A task goes into a timed wait with no timeout pending, and nobody posts `SWINT_TIMEOUT`
to a task in one. -/
def Kernel.Timely (k : Kernel τ ι) : Kernel.Event τ ι → Prop
  | .trap (.wait ilist timeout) => 0 < timeout.toInt → (k.tasks k.current).pending &&& ilist = 0 →
      (k.tasks k.current).pending.getLsbD 16 = false
  | .trap (.post events) => events.getLsbD 16 → ∀ t, ¬ (k.tasks t).TimedWait
  | .post events => events.getLsbD 16 → ∀ t, ¬ (k.tasks t).TimedWait
  | _ => True

/-- `t` is in `wait(mask, limit)` since `elapsed` ticks. As long as the time is not up there
is no wake-up but for `mask`, and the timer runs to the limit or beyond. -/
structure Task.Waits (t : Task ι) (mask limit : Word) (elapsed : Nat) (milliseconds : Word) :
    Prop where
  state : t.state = .waiting
  frame : t.frame = .waiting mask
  waitsig : t.waitsig = mask ||| SWINT_TIMEOUT
  early : limit.toNat ≤ elapsed ∨ (mask.getLsbD 16 = false → t.pending.getLsbD 16 = false) ∧
    milliseconds.toNat + limit.toNat ≤ t.timeout.toNat + elapsed

variable {k : Kernel τ ι} {u : τ} {v : Task ι} {mask limit ms events : Word} {n : Nat}

theorem Task.Waits.timedWait (h : v.Waits mask limit n ms) (hm : mask.getLsbD 16 = false) :
    v.TimedWait := by
  refine ⟨h.state, ?_, ?_⟩
  · rw [h.waitsig, BitVec.getLsbD_or, getLsbD_swintTimeout]
    simp
  · rw [h.frame, Frame.waitsForOther, hm]
    rfl

/-- The timer of a task that `kpost` finds at `ms'` runs out after the limit. -/
theorem Task.Waits.expire (h : v.Waits mask limit n ms) {ms' : Word} {d : Nat}
    (hd : ms'.toNat = ms.toNat + d) : (v.expire ms').Waits mask limit (n + d) ms' := by
  have ⟨hs, hf, hw, he⟩ := h
  obtain he | ⟨hp, he⟩ := he
  · unfold Task.expire
    split_ifs
    all_goals exact ⟨hs, hf, hw, .inl (by omega)⟩
  · unfold Task.expire
    split_ifs with h0 hlt
    · exact ⟨hs, hf, hw, .inr ⟨hp, by omega⟩⟩
    · have := BitVec.lt_def.mp hlt
      exact ⟨hs, hf, hw, .inl (by omega)⟩
    · exact ⟨hs, hf, hw, .inr ⟨hp, by omega⟩⟩

/-- When `milliseconds` wraps, timers move down with it; those below run out. -/
theorem Task.Waits.expireWrapped (h : v.Waits mask limit n ms) (hms : ms.toNat = 2 ^ 31 - 1) :
    (v.expireWrapped 0#32).Waits mask limit (n + 1) 0#32 := by
  have ⟨hs, hf, hw, he⟩ := h
  have hlt := v.timeout.isLt
  have hmoved : (v.timeout - 0x80000000#32).toNat = (v.timeout.toNat + 2 ^ 31) % 2 ^ 32 := by
    rw [BitVec.toNat_sub]
    simp only [BitVec.toNat_ofNat]
    omega
  have hneg : (v.timeout - 0x80000000#32).toInt < (0#32).toInt ↔ v.timeout.toNat < 2 ^ 31 := by
    rw [BitVec.toInt_eq_toNat_cond, hmoved, BitVec.toInt_zero]
    split_ifs <;> omega
  obtain he | ⟨hp, he⟩ := he
  · simp only [Task.expireWrapped]
    split_ifs
    all_goals exact ⟨hs, hf, hw, .inl (by omega)⟩
  · simp only [Task.expireWrapped]
    split_ifs with h0 hz hn hn
    · exact ⟨hs, hf, hw, .inr ⟨hp, by rw [BitVec.toNat_ofNat]; omega⟩⟩
    · exact absurd hn (by decide)
    · have := congrArg BitVec.toNat hz
      refine ⟨hs, hf, hw, .inr ⟨hp, ?_⟩⟩
      simp only [hmoved, BitVec.ofNat_eq_ofNat, BitVec.toNat_ofNat] at this ⊢
      omega
    · have := hneg.mp hn
      exact ⟨hs, hf, hw, .inl (by omega)⟩
    · have := mt hneg.mpr hn
      refine ⟨hs, hf, hw, .inr ⟨hp, ?_⟩⟩
      simp only [hmoved, BitVec.toNat_ofNat]
      omega

/-- A task in a timed wait sleeps on, or gets an event it asked for, or its time is up. -/
theorem Task.Waits.take (h : v.Waits mask limit n ms)
    (he : events.getLsbD 16 → ¬ v.TimedWait) :
    (v.take events).Waits mask limit n ms ∨
      (v.take events).state ≠ .waiting ∧ (v.take events).context1 &&& mask ≠ 0 ∨
      limit.toNat ≤ n := by
  have ⟨hs, hf, hw, hearly⟩ := h
  obtain hearly | ⟨hp, hearly⟩ := hearly
  · exact .inr (.inr hearly)
  have hbit : mask.getLsbD 16 = false → (v.pending ||| events).getLsbD 16 = false := by
    intro hm
    rw [BitVec.getLsbD_or, hp hm, Bool.false_or]
    by_contra hev
    exact he (by simpa using hev) (h.timedWait hm)
  simp only [Task.take]
  split_ifs with hg
  · right
    left
    -- any event it gets is one of `mask`
    refine ⟨by simp, fun hz => ?_⟩
    refine hg.2 (BitVec.eq_of_getLsbD_eq fun b _ => ?_)
    have hb := congrArg (BitVec.getLsbD · b) hz
    simp only [hw, BitVec.getLsbD_and, BitVec.getLsbD_or, getLsbD_swintTimeout] at hb hbit ⊢
    by_cases h16 : b = 16
    · subst h16
      cases hm : mask.getLsbD 16 <;> simp_all
    · simp_all
  · exact .inl ⟨hs, hf, hw, .inr ⟨hbit, hearly⟩⟩

theorem Task.timedWait_expire {t : Task ι} : (t.expire ms).TimedWait ↔ t.TimedWait := by
  have h : t.Undisturbed (t.expire ms) := Task.undisturbed_expire
  rw [Task.TimedWait, Task.TimedWait, h.state, h.waitsig, h.frame]

theorem Task.timedWait_expireWrapped {t : Task ι} :
    (t.expireWrapped ms).TimedWait ↔ t.TimedWait := by
  have h : t.Undisturbed (t.expireWrapped ms) := Task.undisturbed_expireWrapped
  rw [Task.TimedWait, Task.TimedWait, h.state, h.waitsig, h.frame]

/-- `kpost` at the next tick, or between two. -/
theorem Task.Waits.post (h : v.Waits mask limit n ms) (hms : ms.toNat < 2 ^ 31)
    (he : events.getLsbD 16 → ¬ v.TimedWait) (tick : Bool) {ms' : Word}
    (hms' : ms' = if tick then ms + 1 else ms) :
    (v.post events ms').Waits mask limit (n + tick.toNat)
        (if ms'.toInt < 0 then ms' - 0x80000000#32 else ms') ∨
      (v.post events ms').state ≠ .waiting ∧ (v.post events ms').context1 &&& mask ≠ 0 ∨
      limit.toNat ≤ n + tick.toNat := by
  have hn : ms'.toNat = ms.toNat + tick.toNat := by
    rw [hms']
    cases tick
    · simp
    · simp [BitVec.toNat_add]
      omega
  have hneg : ms'.toInt < 0 ↔ ms'.toNat = 2 ^ 31 := by
    have := Bool.toNat_le tick
    rw [BitVec.toInt_eq_toNat_cond]
    split_ifs <;> omega
  unfold Task.post
  split_ifs with hw
  · have hw := hneg.mp hw
    have hz : ms' - 0x80000000#32 = 0#32 := by
      apply BitVec.eq_of_toNat_eq
      simp [BitVec.toNat_sub, hw]
    have ht : tick.toNat = 1 := by
      have := Bool.toNat_le tick
      omega
    rw [hz, ht]
    exact (h.expireWrapped (by omega)).take fun hev => mt timedWait_expireWrapped.mp (he hev)
  · exact (h.expire hn).take fun hev => mt timedWait_expire.mp (he hev)

section
variable [DecidableEq τ] [DecidableEq ι]

omit [DecidableEq ι] in
theorem Kernel.milliseconds_wake {w : Option τ} : (k.wake w).milliseconds = k.milliseconds := by
  cases w <;> rfl

theorem Kernel.milliseconds_next {e : Kernel.Event τ ι} (hp : ∀ events, e ≠ .post events) :
    (k.next e).milliseconds = k.milliseconds := by
  have hpass : ∀ {p} {q : SysPipe τ} {w : Option τ} {f : Frame ι → Frame ι} {wakes o frame},
      (((k.setPipe p q).partner w f wakes).leave o frame).milliseconds = k.milliseconds := by
    intro p q w
    cases w <;> intros <;> rfl
  cases e with
  | post events => exact absurd rfl (hp events)
  | push p val => exact milliseconds_wake
  | pop p => exact milliseconds_wake
  | popShort p => exact milliseconds_wake
  | trap tr =>
    cases tr with
    | read fd dst len =>
      simp only [Kernel.next, Kernel.trap]
      split
      · rfl
      · exact milliseconds_wake
    | write fd src len bytes =>
      simp only [Kernel.next, Kernel.trap]
      split
      · rfl
      · exact milliseconds_wake
    | _ => rfl
  | pass =>
    simp only [Kernel.next]
    unfold Kernel.pass
    split
    · rfl
    · exact hpass
    · exact hpass
    · rfl
  | schedule t => rfl

theorem Kernel.milliseconds_lt_next (h : k.milliseconds.toNat < 2 ^ 31)
    {e : Kernel.Event τ ι} : (k.next e).milliseconds.toNat < 2 ^ 31 := by
  by_cases hp : ∃ events, e = .post events
  · obtain ⟨events, rfl⟩ := hp
    simp only [Kernel.next, kpost]
    generalize (if events &&& INT_TIMER ≠ 0 then k.milliseconds + 1 else k.milliseconds) = ms
    split_ifs with hn
    · have := ms.isLt
      rw [BitVec.toInt_eq_toNat_cond] at hn
      rw [BitVec.toNat_sub]
      simp only [BitVec.toNat_ofNat]
      split_ifs at hn <;> omega
    · rw [BitVec.toInt_eq_toNat_cond] at hn
      split_ifs at hn <;> omega
  · rw [milliseconds_next fun events he => hp ⟨events, he⟩]
    exact h

/-- What an event does to a task asleep in a timed wait. -/
theorem Task.Waits.next (hk : k.Owned) (hms : k.milliseconds.toNat < 2 ^ 31)
    {e : Kernel.Event τ ι} (he : k.Enabled e) (ht : k.Timely e)
    (h : (k.tasks u).Waits mask limit n k.milliseconds) :
    ((k.next e).tasks u).Waits mask limit (n + e.isTick.toNat) (k.next e).milliseconds ∨
      ((k.next e).tasks u).state ≠ .waiting ∧ ((k.next e).tasks u).context1 &&& mask ≠ 0 ∨
      limit.toNat ≤ n + e.isTick.toNat := by
  by_cases hp : ∃ events, e = .post events
  · obtain ⟨events, rfl⟩ := hp
    refine h.post hms (fun hb => ht hb u) (decide (events &&& INT_TIMER ≠ 0)) ?_
    simp
  by_cases htp : ∃ events, e = .trap (.post events)
  · -- a task's post has no tick
    obtain ⟨events, rfl⟩ := htp
    have htick : events &&& ~~~0x07fff#32 &&& INT_TIMER = 0 := by
      rw [BitVec.and_assoc]
      exact BitVec.and_zero
    have hlt : ¬ k.milliseconds.toInt < 0 := by
      rw [BitVec.toInt_eq_toNat_cond]
      split_ifs <;> omega
    have hev : (events &&& ~~~0x07fff#32).getLsbD 16 → ¬ (k.tasks u).TimedWait :=
      fun hb => ht (getLsbD_of_and_not hb) u
    have hw := h.post hms hev false rfl
    rw [if_neg Bool.false_ne_true, if_neg hlt] at hw
    have htasks : (k.next (.trap (.post events))).tasks u =
        (k.tasks u).post (events &&& ~~~0x07fff#32) k.milliseconds := by
      simp only [Kernel.next, Kernel.trap, kpost]
      rw [if_neg (not_not_intro htick)]
    rw [htasks]
    exact hw
  · have hfr : (k.tasks u).frame.inPipe = false := by rw [h.frame]; rfl
    have htasks : (k.next e).tasks u = k.tasks u :=
      Kernel.tasks_next_of_ne he (by simp [h.state]) (fun p => (hk.not_end hfr p).1)
        (fun p => (hk.not_end hfr p).2) (fun events he => hp ⟨events, he⟩)
        fun events he => htp ⟨events, he⟩
    have htick : e.isTick = false := by
      cases e with
      | post events => exact absurd ⟨events, rfl⟩ hp
      | _ => rfl
    rw [htasks, Kernel.milliseconds_next fun events he => hp ⟨events, he⟩, htick]
    exact .inl h

variable {es : List (Kernel.Event τ ι)} {e : Kernel.Event τ ι}

/-- A task asleep in a timed wait until the last of `es`, and woken by `e`. -/
theorem Task.Waits.lasts (hk : k.Halted ∨ k.Owned) (hms : k.milliseconds.toNat < 2 ^ 31)
    (h : (k.tasks u).Waits mask limit n k.milliseconds)
    (ha : (halting.restrict Kernel.Timely).Admits k (es ++ [e])) (hs : k.Sleeps u es)
    (hw : (((es ++ [e]).foldl Kernel.next k).tasks u).state ≠ .waiting) :
    (((es ++ [e]).foldl Kernel.next k).tasks u).context1 &&& mask ≠ 0 ∨
      limit.toNat ≤ n + ticks (es ++ [e]) := by
  have htick : ∀ e : Kernel.Event τ ι, ∀ es, ticks (e :: es) = e.isTick.toNat + ticks es := by
    intro e es
    cases he : e.isTick
    · simp [ticks, he]
    · simp [ticks, he, Nat.add_comm]
  induction es generalizing k n with
  | nil =>
    obtain ⟨⟨⟨he, hh⟩, ht⟩, -⟩ := ha
    have hk := hk.resolve_left hh
    obtain h | ⟨-, h⟩ | h := h.next hk hms he ht
    · exact absurd h.state hw
    · exact .inl h
    · rw [List.nil_append, htick, ticks, List.countP_nil]
      exact .inr h
  | cons e' es ih =>
    obtain ⟨⟨⟨he, hh⟩, ht⟩, ha⟩ := ha
    have hk := hk.resolve_left hh
    rw [List.cons_append, htick, ← Nat.add_assoc]
    obtain h | ⟨h, -⟩ | h := h.next hk hms he ht
    · exact ih (hk.next he) (Kernel.milliseconds_lt_next hms) h ha hs.2 hw
    · -- the task has slept on
      cases es with
      | nil => exact absurd hs.2 h
      | cons _ _ => exact absurd hs.2.1 h
    · exact .inr (by omega)

omit [DecidableEq ι] in
theorem Task.waits_wait {t : Task ι} (ht : 0 < limit.toInt) (hms : ms.toNat < 2 ^ 31)
    (hr : t.state = .ready) (hp : t.pending &&& mask = 0 → t.pending.getLsbD 16 = false)
    (hs : (t.wait mask limit ms).state = .waiting) :
    ({ t.wait mask limit ms with frame := .waiting mask } : Task ι).Waits mask limit 0 ms := by
  have hne : limit ≠ 0 := by
    rintro rfl
    simp at ht
  simp only [Task.wait, if_neg hne, if_pos ht] at hs ⊢
  by_cases hg : t.pending &&& mask = 0
  · rw [if_neg (not_not_intro hg)]
    refine ⟨rfl, rfl, rfl, .inr ⟨fun _ => hp hg, ?_⟩⟩
    rw [BitVec.toInt_eq_toNat_cond] at ht
    simp only [BitVec.toNat_add]
    split_ifs at ht <;> omega
  · rw [if_pos hg] at hs
    simp [hr] at hs

theorem Kernel.milliseconds_lt (h : (halting.restrict Kernel.Timely).Reachable k) :
    k.milliseconds.toNat < 2 ^ 31 := by
  refine h.invariant (P := fun k => k.milliseconds.toNat < 2 ^ 31) ?_ ?_
  · rintro k ⟨hi, -⟩
    simp [hi.milliseconds]
  · intro k e hk _
    exact milliseconds_lt_next hk

/-- As long as no task goes into a timed wait with a timeout pending, and none is posted to
it there, a task that sleeps in `wait(mask, limit)` is woken by an event in `mask` or when
`limit` ticks have passed. -/
theorem wait_lasts (h : (halting.restrict Kernel.Timely).Reachable k) (ht : 0 < limit.toInt)
    (ha : (halting.restrict Kernel.Timely).Admits k (.trap (.wait mask limit) :: (es ++ [e])))
    (hs : (k.next (.trap (.wait mask limit))).Sleeps k.current es)
    (hw : (((es ++ [e]).foldl Kernel.next (k.next (.trap (.wait mask limit)))).tasks
      k.current).state ≠ .waiting) :
    (((es ++ [e]).foldl Kernel.next (k.next (.trap (.wait mask limit)))).tasks
        k.current).context1 &&& mask ≠ 0 ∨ limit.toNat ≤ ticks (es ++ [e]) := by
  obtain ⟨⟨⟨he, hh⟩, hp⟩, ha⟩ := ha
  have hk := (Kernel.Owned.reachable h).resolve_left hh
  have hms := Kernel.milliseconds_lt h
  have hsleeps : ((k.next (.trap (.wait mask limit))).tasks k.current).state = .waiting := by
    cases es with
    | nil => exact hs
    | cons _ _ => exact hs.1
  have hcur : (k.next (.trap (.wait mask limit))).tasks k.current =
      { (k.tasks k.current).wait mask limit k.milliseconds with frame := .waiting mask } := by
    simp [Kernel.next, Kernel.trap, Kernel.setTask]
  rw [hcur] at hsleeps
  have hwaits := Task.waits_wait ht hms he.1 (hp ht) hsleeps
  rw [← hcur] at hwaits
  have hl := Task.Waits.lasts (hk.next he) hms hwaits ha hs hw
  rwa [Nat.zero_add] at hl

instance (t : Task ι) : Decidable t.TimedWait := inferInstanceAs (Decidable (_ ∧ _ ∧ _))

instance Kernel.decidableTimely [Fintype τ] (k : Kernel τ ι) :
    (e : Kernel.Event τ ι) → Decidable (k.Timely e)
  | .trap (.wait ilist timeout) => inferInstanceAs (Decidable (0 < timeout.toInt →
      (k.tasks k.current).pending &&& ilist = 0 → (k.tasks k.current).pending.getLsbD 16 = false))
  | .trap (.post events) | .post events =>
    inferInstanceAs (Decidable (events.getLsbD 16 → ∀ t, ¬ (k.tasks t).TimedWait))
  | .trap (.clear _) | .trap .yield | .trap (.read ..) | .trap (.write ..) | .trap (.result _)
  | .trap .exit | .push .. | .pop _ | .popShort _ | .pass | .schedule _ => .isTrue trivial

instance [Fintype τ] (k : Kernel τ ι) (e : Kernel.Event τ ι) :
    Decidable ((halting.restrict Kernel.Timely).allowed k e) :=
  inferInstanceAs (Decidable (halting.allowed k e ∧ k.Timely e))

instance Kernel.decidableSleeps (t : τ) :
    (es : List (Kernel.Event τ ι)) → (k : Kernel τ ι) → Decidable (k.Sleeps t es)
  | [], k => inferInstanceAs (Decidable ((k.tasks t).state = .waiting))
  | e :: es, k => @instDecidableAnd _ _ _ (Kernel.decidableSleeps t es (k.next e))

theorem halting_init_newKernel : halting.init newKernel :=
  ⟨init_newKernel, fun _ => ⟨fun _ h => (by cases h), rfl⟩⟩

def tick : Kernel.Event (Fin 2) Unit := .post INT_TIMER

theorem wait_lasts_two_ticks :
    ((([.schedule 1, tick, tick] ++ [tick]).foldl Kernel.next
        (newKernel.next (.trap (.wait 0x8001 2)))).tasks 0).context1 &&& 0x8001 ≠ 0 ∨
      (2 : Word).toNat ≤ ticks ([.schedule 1, tick, tick] ++ [tick]) :=
  wait_lasts (System.reachable_init halting_init_newKernel) (by decide) (by decide +kernel)
    (by decide +kernel) (by decide +kernel)

/-- The button comes before the first wait's timer, which runs out unasked. -/
def leftOver : List (Kernel.Event (Fin 2) Unit) :=
  [.trap (.wait 0x8001 1), .schedule newKernel.idle, .post 0x0001,
    .schedule newKernel.current, tick, tick]

/-- The next wait, for 1000 ticks, ends at the next interrupt, whatever it is. -/
theorem leftOver_wakes_early :
    let k := leftOver.foldl Kernel.next newKernel
    let k' := [.schedule 1, .post 0x0100].foldl Kernel.next
      (k.next (.trap (.wait 0x8001 1000)))
    halting.Reachable k ∧
      halting.Admits k [.trap (.wait 0x8001 1000), .schedule 1, .post 0x0100] ∧
      (k.next (.trap (.wait 0x8001 1000))).Sleeps 0 [.schedule 1] ∧
      (k'.tasks 0).state ≠ .waiting ∧ (k'.tasks 0).context1 &&& 0x8001 = 0 ∧
      ticks ([.schedule 1, .post 0x0100] : List (Kernel.Event (Fin 2) Unit)) = 0 :=
  ⟨(System.reachable_init halting_init_newKernel).foldl (by decide +kernel), by decide +kernel,
    by decide +kernel, by decide +kernel, by decide +kernel, by decide +kernel⟩

end

end S6Soc.ZipOS
