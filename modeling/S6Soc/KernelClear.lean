import Mathlib
import S6Soc.KernelEvents

/-! `clear(mask, timeout)`: its documented contract, the calls for which the handler keeps to
it, and what then holds of tasks that never ask for a timeout. -/
namespace S6Soc.ZipOS
open Clocked

variable {τ ι : Type}

/-- A kernel and the tasks that have passed a positive timeout to `wait` or `clear`. -/
structure Timed (τ ι : Type) where
  kernel : Kernel τ ι
  positive : τ → Bool

/-- The timeout a trap asks for; `clear` has it in `context[3]`, where the handler does not
look. -/
def Trap.timeout : Trap → Word → Word
  | .wait _ timeout, _ => timeout
  | .clear _, context3 => context3
  | _, _ => 0

section
variable [DecidableEq τ] [DecidableEq ι]

def Timed.next (s : Timed τ ι) (e : Kernel.Event τ ι × Word) : Timed τ ι where
  kernel := s.kernel.next e.1
  positive := match e.1 with
    | .trap trap => Function.update s.positive s.kernel.current
        (s.positive s.kernel.current || decide (0 < (trap.timeout e.2).toInt))
    | _ => s.positive

/-- The kernel's events, each with the trapping task's `context[3]`. -/
def calls : System (Timed τ ι) (Kernel.Event τ ι × Word) where
  init s := s.kernel.Init ∧ ∀ t, s.positive t = false
  allowed s e := s.kernel.Enabled e.1
  next := Timed.next

end

/-- What `clear(mask, timeout)` is documented to do to its caller. -/
structure Task.Cleared (t u : Task ι) (mask timeout milliseconds : Word) : Prop where
  result : u.context1 = mask &&& t.pending
  pending : u.pending = if timeout.toInt < 0 then t.pending &&& ~~~mask &&& ~~~SWINT_TIMEOUT
    else t.pending &&& ~~~mask
  timer : u.timeout = if timeout.toInt < 0 then 0
    else if timeout = 0 then t.timeout else milliseconds + timeout

/-- The mask, which the handler takes for the timeout, does to the timer what the timeout
should. -/
def Task.TimerFits (t : Task ι) (mask timeout milliseconds : Word) : Prop :=
  if timeout = 0 then 0 < mask.toInt → t.timeout = milliseconds + mask
  else if timeout.toInt < 0 then
    if 0 < mask.toInt then milliseconds + mask = 0 else t.timeout = 0
  else if 0 < mask.toInt then mask = timeout else t.timeout = milliseconds + timeout

/-- A wake-up that the mask does not take is cancelled exactly if the timeout is negative. -/
def Task.WakeupFits (t : Task ι) (mask timeout : Word) : Prop :=
  t.pending.getLsbD 16 → mask.getLsbD 16 = false → (mask.toInt < 0 ↔ timeout.toInt < 0)

def Task.ClearFits (t : Task ι) (mask timeout milliseconds : Word) : Prop :=
  t.TimerFits mask timeout milliseconds ∧ t.WakeupFits mask timeout

/-- Calls of `clear` that the handler does justice to, and no posts of `SWINT_TIMEOUT`. -/
def Timed.Fits (s : Timed τ ι) (e : Kernel.Event τ ι × Word) : Prop :=
  match e.1 with
  | .trap (.clear mask) =>
    (s.kernel.tasks s.kernel.current).ClearFits mask e.2 s.kernel.milliseconds
  | .trap (.post events) => events.getLsbD 16 = false
  | .post events => events.getLsbD 16 = false
  | _ => True

/-- No timer runs and no wake-up is pending. -/
def Task.Untimed (t : Task ι) : Prop := t.timeout = 0 ∧ t.pending.getLsbD 16 = false

variable {t : Task ι} {mask timeout ms : Word}

theorem and_not_and {x y : Word} : x &&& ~~~(y &&& x) = x &&& ~~~y := by
  ext b
  simp only [BitVec.getElem_and, BitVec.getElem_not]
  cases x[b] <;> simp

theorem getLsbD_swintTimeout {b : Nat} : SWINT_TIMEOUT.getLsbD b = decide (b = 16) := by
  by_cases hb : b = 16
  · subst hb
    rfl
  · simp [swintTimeout_bit hb, hb]

theorem and_not_timeout_eq_self {x : Word} :
    x &&& ~~~SWINT_TIMEOUT = x ↔ x.getLsbD 16 = false := by
  constructor
  · intro h
    rw [← h, getLsbD_and_not, getLsbD_swintTimeout]
    simp
  · intro h
    refine BitVec.eq_of_getLsbD_eq fun b _ => ?_
    rw [getLsbD_and_not, getLsbD_swintTimeout]
    by_cases hb : b = 16
    · subst hb
      rw [h]
      rfl
    · simp [hb]

theorem Task.clear_context1 : (t.clear mask ms).context1 = mask &&& t.pending := by
  simp only [Task.clear]
  split_ifs <;> rfl

/-- The handler looks at the sign of the mask. -/
theorem Task.clear_pending : (t.clear mask ms).pending =
    if mask.toInt < 0 then t.pending &&& ~~~mask &&& ~~~SWINT_TIMEOUT
    else t.pending &&& ~~~mask := by
  simp only [Task.clear, and_not_and]
  by_cases h0 : mask = 0
  · subst h0
    simp
  · rw [if_neg h0]
    split_ifs <;> rfl

theorem Task.clear_timeout : (t.clear mask ms).timeout =
    if 0 < mask.toInt then ms + mask else t.timeout := by
  simp only [Task.clear]
  by_cases h0 : mask = 0
  · subst h0
    simp
  · have hne : mask.toInt ≠ 0 := fun h => h0 (BitVec.eq_of_toInt_eq h)
    rw [if_neg h0]
    split_ifs with hneg hpos hpos
    · omega
    · rfl
    · rfl
    · omega

theorem Task.clear_pending_iff : ((t.clear mask ms).pending =
      if timeout.toInt < 0 then t.pending &&& ~~~mask &&& ~~~SWINT_TIMEOUT
      else t.pending &&& ~~~mask) ↔ t.WakeupFits mask timeout := by
  have hb : (t.pending &&& ~~~mask).getLsbD 16 = false ↔
      (t.pending.getLsbD 16 → mask.getLsbD 16 = false → False) := by
    rw [getLsbD_and_not]
    cases t.pending.getLsbD 16 <;> cases mask.getLsbD 16 <;> simp
  rw [Task.clear_pending, Task.WakeupFits]
  split_ifs with hm ht ht
  · simp [hm, ht]
  · rw [and_not_timeout_eq_self, hb]
    simp [hm, ht]
  · rw [eq_comm, and_not_timeout_eq_self, hb]
    simp [hm, ht]
  · simp [hm, ht]

theorem Task.clear_timeout_iff : ((t.clear mask ms).timeout =
      if timeout.toInt < 0 then 0 else if timeout = 0 then t.timeout else ms + timeout) ↔
    t.TimerFits mask timeout ms := by
  rw [Task.clear_timeout, Task.TimerFits]
  by_cases h0 : timeout = 0
  · subst h0
    by_cases hm : 0 < mask.toInt
    · simp [hm, eq_comm]
    · simp [hm]
  · rw [if_neg h0, if_neg h0]
    by_cases ht : timeout.toInt < 0
    · by_cases hm : 0 < mask.toInt
      · simp [ht, hm]
      · simp [ht, hm]
    · by_cases hm : 0 < mask.toInt
      · simp [ht, hm]
      · simp [ht, hm]

/-- A call of `clear` does what is documented exactly if the mask fits the timeout. -/
theorem Task.cleared_iff :
    t.Cleared (t.clear mask ms) mask timeout ms ↔ t.ClearFits mask timeout ms := by
  constructor
  · rintro ⟨-, hp, ht⟩
    exact ⟨clear_timeout_iff.mp ht, clear_pending_iff.mp hp⟩
  · rintro ⟨ht, hp⟩
    exact ⟨clear_context1, clear_pending_iff.mpr hp, clear_timeout_iff.mpr ht⟩

/-- The timer runs on, and no wake-up is new. -/
def Task.KeepsTimer (t u : Task ι) : Prop :=
  u.timeout = t.timeout ∧ (u.pending.getLsbD 16 → t.pending.getLsbD 16)

variable {u : Task ι} {events : Word}

theorem Task.KeepsTimer.refl : t.KeepsTimer t := ⟨rfl, fun h => h⟩

theorem Task.Untimed.keeps (h : t.Untimed) (hk : t.KeepsTimer u) : u.Untimed := by
  obtain ⟨ht, hp⟩ := h
  obtain ⟨ht', hp'⟩ := hk
  refine ⟨ht'.trans ht, ?_⟩
  by_contra hc
  rw [Bool.not_eq_false] at hc
  exact Bool.false_ne_true (hp.symm.trans (hp' hc))

theorem getLsbD_of_and_not {x y : Word} {b : Nat} (h : (x &&& ~~~y).getLsbD b) :
    x.getLsbD b := by
  rw [getLsbD_and_not, Bool.and_eq_true] at h
  exact h.1

theorem Task.Untimed.post (h : t.Untimed) (he : events.getLsbD 16 = false) :
    (t.post events ms).Untimed := by
  have htake : (t.take events).Untimed := by
    have hp : (t.pending ||| events).getLsbD 16 = false := by
      rw [BitVec.getLsbD_or, h.2, he]
      rfl
    simp only [Task.take]
    split_ifs
    · refine ⟨h.1, ?_⟩
      rw [getLsbD_and_not, hp]
      rfl
    · exact ⟨h.1, hp⟩
  unfold Task.post
  split_ifs
  · rwa [Task.expireWrapped, if_pos h.1]
  · rwa [Task.expire, if_pos h.1]

theorem Task.keepsTimer_wait {ilist : Word} (ht : ¬ 0 < timeout.toInt) :
    t.KeepsTimer (t.wait ilist timeout ms) := by
  simp only [Task.wait, if_neg ht]
  split_ifs
  · exact ⟨rfl, getLsbD_of_and_not⟩
  · exact .refl
  · exact .refl

theorem Task.Untimed.clear (h : t.Untimed) (ht : ¬ 0 < timeout.toInt)
    (hf : t.ClearFits mask timeout ms) : (t.clear mask ms).Untimed := by
  obtain ⟨-, hp, htimer⟩ := cleared_iff.mpr hf
  constructor
  · rw [htimer]
    split_ifs with h1 h2
    · rfl
    · exact h.1
    · exact absurd (BitVec.eq_of_toInt_eq (by simpa using (by omega : timeout.toInt = 0))) h2
  · rw [hp]
    split_ifs
    · rw [getLsbD_and_not, getLsbD_and_not, h.2]
      rfl
    · rw [getLsbD_and_not, h.2]
      rfl

theorem Task.keepsTimer_leave {o : Outcome} {frame : Frame ι} :
    t.KeepsTimer (t.leave o frame ms) := by
  cases o with
  | sleeps => exact Task.keepsTimer_wait (t := t) (by decide)
  | again => exact .refl
  | done n => exact .refl
  | exits code => exact .refl

theorem Task.keepsTimer_enter {r : Reply τ} {addr : Word} {frame : Frame ι} :
    t.KeepsTimer (t.enter r addr frame) := by
  unfold Task.enter
  cases r.refused <;> exact .refl

/-- No task's timer is touched. -/
def Kernel.KeepsTimers (k k' : Kernel τ ι) : Prop := ∀ t, (k.tasks t).KeepsTimer (k'.tasks t)

variable {k k' k'' : Kernel τ ι}

theorem Kernel.KeepsTimers.trans (h : k.KeepsTimers k') (h' : k'.KeepsTimers k'') :
    k.KeepsTimers k'' := by
  intro t
  obtain ⟨ht, hp⟩ := h t
  obtain ⟨ht', hp'⟩ := h' t
  exact ⟨ht'.trans ht, fun hb => hp (hp' hb)⟩

def Timed.Ok (s : Timed τ ι) : Prop :=
  ∀ t, s.positive t = false → (s.kernel.tasks t).Untimed

variable {s : Timed τ ι}

/-- A step that touches no timer, whatever is asked. -/
theorem Timed.Ok.keeps (h : s.Ok) {s' : Timed τ ι} (hk : s.kernel.KeepsTimers s'.kernel)
    (hp : ∀ t, s'.positive t = false → s.positive t = false) : s'.Ok :=
  fun t ht => (h t (hp t ht)).keeps (hk t)

theorem Kernel.keepsTimers_setPipe [DecidableEq ι] {p : ι} {q : SysPipe τ} :
    k.KeepsTimers (k.setPipe p q) := fun _ => .refl

section
variable [DecidableEq τ]

theorem Kernel.keepsTimers_setTask {v : τ} {f : Task ι → Task ι}
    (hf : (k.tasks v).KeepsTimer (f (k.tasks v))) : k.KeepsTimers (k.setTask v f) := by
  intro u
  by_cases hu : u = v
  · subst hu
    simpa [Kernel.setTask] using hf
  · simpa [Kernel.setTask, hu] using Task.KeepsTimer.refl

theorem Kernel.keepsTimers_wake {v : Option τ} : k.KeepsTimers (k.wake v) := by
  cases v with
  | none => exact fun _ => .refl
  | some v => exact keepsTimers_setTask (f := fun u => { u with state := .ready }) .refl

theorem Kernel.keepsTimers_partner {v : Option τ} {f : Frame ι → Frame ι} {wakes : Bool} :
    k.KeepsTimers (k.partner v f wakes) := by
  cases v with
  | none => exact fun _ => .refl
  | some v =>
    simp only [Kernel.partner]
    refine keepsTimers_setTask ?_
    exact .refl

theorem Kernel.keepsTimers_leave {o : Outcome} {frame : Frame ι} :
    k.KeepsTimers (k.leave o frame) := keepsTimers_setTask Task.keepsTimer_leave

variable [DecidableEq ι]

theorem Kernel.keepsTimers_enter {p : ι} {r : Reply τ} {frame : Frame ι} :
    k.KeepsTimers (k.enter p r frame) := by
  have h : (k.setPipe p r.pipe).KeepsTimers _ :=
    keepsTimers_setTask (v := k.current) (f := fun t => t.enter r (k.addr k.current) frame)
      Task.keepsTimer_enter
  exact (keepsTimers_setPipe.trans h).trans keepsTimers_wake

theorem Kernel.keepsTimers_pass : k.KeepsTimers k.pass := by
  unfold Kernel.pass
  split
  · exact keepsTimers_leave
  · exact (keepsTimers_setPipe.trans keepsTimers_partner).trans keepsTimers_leave
  · exact (keepsTimers_setPipe.trans keepsTimers_partner).trans keepsTimers_leave
  · exact fun _ => .refl

/-- Traps other than a POST, a CLEAR or a WAIT with a positive timeout. -/
theorem Kernel.keepsTimers_trap {tr : Trap} (hp : ∀ events, tr ≠ .post events)
    (hc : ∀ mask, tr ≠ .clear mask)
    (hw : ∀ ilist timeout, tr = .wait ilist timeout → ¬ 0 < timeout.toInt) :
    k.KeepsTimers (k.trap tr) := by
  have hb : k.KeepsTimers k.badf := by
    unfold Kernel.badf
    refine keepsTimers_setTask ?_
    exact .refl
  cases tr with
  | wait ilist timeout =>
    simp only [Kernel.trap]
    refine keepsTimers_setTask ?_
    exact Task.keepsTimer_wait (t := k.tasks k.current) (hw _ _ rfl)
  | clear mask => exact absurd rfl (hc mask)
  | post events => exact absurd rfl (hp events)
  | yield => exact fun _ => .refl
  | read fd dst len =>
    simp only [Kernel.trap]
    split
    · exact hb
    · exact keepsTimers_enter
  | write fd src len bytes =>
    simp only [Kernel.trap]
    split
    · exact hb
    · exact keepsTimers_enter
  | result value =>
    simp only [Kernel.trap]
    refine keepsTimers_setTask ?_
    exact .refl
  | exit =>
    have he : k.KeepsTimers (k.setTask k.current fun t =>
        { t with state := .exit, frame := .own }) := by
      refine keepsTimers_setTask ?_
      exact .refl
    exact he

theorem Timed.positive_next {tr : Trap} {context3 : Word} {t : τ}
    (h : (s.next (.trap tr, context3)).positive t = false) :
    s.positive t = false ∧ (t = s.kernel.current → ¬ 0 < (tr.timeout context3).toInt) := by
  by_cases ht : t = s.kernel.current
  · subst ht
    simp only [Timed.next, Function.update_self, Bool.or_eq_false_iff] at h
    exact ⟨h.1, fun _ => of_decide_eq_false h.2⟩
  · simp only [Timed.next, Function.update_of_ne ht] at h
    exact ⟨h, fun he => absurd he ht⟩

theorem Timed.Ok.trap (h : s.Ok) {tr : Trap} {context3 : Word}
    (hf : s.Fits (.trap tr, context3)) : (s.next (.trap tr, context3)).Ok := by
  have hpos : ∀ t, (s.next (.trap tr, context3)).positive t = false → s.positive t = false :=
    fun t ht => (positive_next ht).1
  have hother : (∀ events, tr ≠ .post events) → (∀ mask, tr ≠ .clear mask) →
      (∀ ilist timeout, tr = .wait ilist timeout → ¬ 0 < timeout.toInt) →
      s.kernel.KeepsTimers (s.next (.trap tr, context3)).kernel := Kernel.keepsTimers_trap
  cases tr with
  | wait ilist timeout =>
    intro t ht
    obtain ⟨ht, hw⟩ := positive_next ht
    by_cases hc : t = s.kernel.current
    · have hk : s.kernel.KeepsTimers (s.kernel.trap (.wait ilist timeout)) := by
        refine Kernel.keepsTimers_trap (by simp) (by simp) ?_
        rintro _ _ ⟨⟩
        exact hw hc
      exact (h t ht).keeps (hk t)
    · simpa [Timed.next, Kernel.next, Kernel.trap, Kernel.setTask, hc] using h t ht
  | clear mask =>
    intro t ht
    obtain ⟨ht, hw⟩ := positive_next ht
    by_cases hc : t = s.kernel.current
    · subst hc
      have hu := (h _ ht).clear (hw rfl) hf
      simp only [Timed.next, Kernel.next, Kernel.trap, Kernel.setTask, Function.update_self]
      exact hu
    · simpa [Timed.next, Kernel.next, Kernel.trap, Kernel.setTask, hc] using h t ht
  | post events =>
    intro t ht
    have he : (events &&& ~~~0x07fff#32).getLsbD 16 = false := by
      rw [getLsbD_and_not, show events.getLsbD 16 = false from hf]
      rfl
    exact (h t (hpos t ht)).post he
  | _ => exact h.keeps (hother (by simp) (by simp) (by simp)) hpos

theorem Timed.Ok.next (h : s.Ok) {e : Kernel.Event τ ι × Word} (hf : s.Fits e) :
    (s.next e).Ok := by
  obtain ⟨e, context3⟩ := e
  cases e with
  | trap tr => exact h.trap hf
  | post events => exact fun t ht => (h t ht).post hf
  | push p val =>
    exact h.keeps (Kernel.keepsTimers_setPipe.trans Kernel.keepsTimers_wake) fun _ ht => ht
  | pop p =>
    exact h.keeps (Kernel.keepsTimers_setPipe.trans Kernel.keepsTimers_wake) fun _ ht => ht
  | popShort p =>
    exact h.keeps (Kernel.keepsTimers_setPipe.trans Kernel.keepsTimers_wake) fun _ ht => ht
  | pass => exact h.keeps Kernel.keepsTimers_pass fun _ ht => ht
  | schedule t => exact h.keeps (fun _ => .refl) fun _ ht => ht

theorem Timed.Ok.reachable (h : (calls.restrict Timed.Fits).Reachable s) : s.Ok := by
  refine h.invariant ?_ fun _ _ hs ha => hs.next ha.2
  rintro s ⟨hi, -⟩ t -
  refine ⟨hi.timeout t, ?_⟩
  rw [hi.pending t]
  rfl

/-- A call of `clear` keeps its contract exactly if the mask, taken for the timeout, does what
the timeout should. As long as all calls do and nobody posts `SWINT_TIMEOUT`, a task that
has never passed a positive timeout has neither a running timeout nor a pending wake-up. -/
theorem clear_contract (h : (calls.restrict Timed.Fits).Reachable s) (t : τ) :
    (∀ mask timeout ms, (s.kernel.tasks t).Cleared ((s.kernel.tasks t).clear mask ms)
        mask timeout ms ↔ (s.kernel.tasks t).ClearFits mask timeout ms) ∧
      (s.positive t = false → (s.kernel.tasks t).Untimed) :=
  ⟨fun _ _ _ => Task.cleared_iff, Timed.Ok.reachable h t⟩

instance (s : Timed τ ι) (e : Kernel.Event τ ι × Word) : Decidable (calls.allowed s e) :=
  inferInstanceAs (Decidable (s.kernel.Enabled e.1))

def newTimed : Timed (Fin 2) Unit := ⟨newKernel, fun _ => false⟩

theorem init_newTimed : calls.init newTimed := ⟨init_newKernel, fun _ => rfl⟩

/-- A timeout of as many ticks as the mask is, when read as a number. -/
def matched : Kernel.Event (Fin 2) Unit × Word := (.trap (.clear 0x0001), 1)

theorem clear_contract_matched :
    (∀ mask timeout ms,
      ((calls.next newTimed matched).kernel.tasks 0).Cleared
        (((calls.next newTimed matched).kernel.tasks 0).clear mask ms) mask timeout ms ↔
      ((calls.next newTimed matched).kernel.tasks 0).ClearFits mask timeout ms) ∧
    ((calls.next newTimed matched).positive 1 = false →
      ((calls.next newTimed matched).kernel.tasks 1).Untimed) := by
  have ha : (calls.restrict Timed.Fits).allowed newTimed matched :=
    ⟨by decide +kernel, by simp [Task.TimerFits, matched], fun h => absurd h (by decide +kernel)⟩
  have hr := (System.reachable_init (M := calls.restrict Timed.Fits) init_newTimed).step ha
  exact ⟨(clear_contract hr 0).1, (clear_contract hr 1).2⟩

/-- `clear(0x0001, -1)` should cancel a timeout. It starts one. -/
def cancelling : Kernel.Event (Fin 2) Unit × Word := (.trap (.clear 0x0001), -1)

theorem cancelling_starts_timer : ∃ s : Timed (Fin 2) Unit, calls.Reachable s ∧
    s.positive 0 = false ∧ (s.kernel.tasks 0).timeout ≠ 0 ∧
    ¬ (newTimed.kernel.tasks 0).Cleared ((newTimed.kernel.tasks 0).clear 0x0001 0)
      0x0001 (-1) 0 := by
  refine ⟨calls.next newTimed cancelling,
    (System.reachable_init init_newTimed).step (by decide +kernel), by decide +kernel,
    by decide +kernel, fun h => ?_⟩
  have ht := h.timer
  revert ht
  decide +kernel

end

end S6Soc.ZipOS
