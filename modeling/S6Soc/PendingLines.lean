import Mathlib
import S6Soc.Icontrol

/-! The interrupt controller for any number of lines: which pulses its pending bits keep. -/
namespace S6Soc.Icontrol
open Clocked

variable {iused : ℕ}

structure Controller (iused : ℕ) where
  rIntState : BitVec iused
  rIntEnable : BitVec iused
  rGie : Bool
  rAny : Bool
  rInterrupt : Bool
  deriving DecidableEq

structure Input (iused : ℕ) where
  iReset : Bool
  iWr : Bool
  iProcBus : Word
  iBrdInts : BitVec iused
  deriving DecidableEq

def Controller.nxtIntState (s : Controller iused) (i : Input iused) : BitVec iused :=
  s.rIntState ||| i.iBrdInts

def Controller.step (s : Controller iused) (i : Input iused) : Controller iused where
  rIntState :=
    if i.iReset then 0
    else if i.iWr then s.nxtIntState i &&& ~~~(i.iProcBus.extractLsb' 0 iused)
    else s.nxtIntState i
  rIntEnable :=
    if i.iReset then 0
    else if i.iWr && i.iProcBus.getLsbD 31 then
      s.rIntEnable ||| i.iProcBus.extractLsb' 16 iused
    else if i.iWr && !i.iProcBus.getLsbD 31 then
      s.rIntEnable &&& ~~~(i.iProcBus.extractLsb' 16 iused)
    else s.rIntEnable
  rGie := if i.iReset then false else if i.iWr then i.iProcBus.getLsbD 31 else s.rGie
  rAny := s.rIntState &&& s.rIntEnable ≠ 0
  rInterrupt := s.rGie && s.rAny

/-- At most fifteen lines. -/
def Controller.oProcBus (s : Controller iused) : Word :=
  BitVec.ofBool s.rGie ++ s.rIntEnable.setWidth 15 ++ BitVec.ofBool s.rAny ++
    s.rIntState.setWidth 15

/-- The board's eleven lines. -/
def State.controller (s : State) : Controller 11 :=
  ⟨s.rIntState, s.rIntEnable, s.rGie, s.rAny, s.rInterrupt⟩

theorem controller_step (s : State) (wr : Option Word) (ints : BitVec 11) :
    (s.step wr ints).controller =
      s.controller.step ⟨false, wr.isSome, wr.getD 0, ints⟩ := by
  cases wr with
  | none => rfl
  | some bus =>
    rw [State.step, State.controller, Controller.step]
    cases h : bus.getLsbD 31 <;> simp only [Option.isSome_some, Option.getD_some, h] <;> rfl

theorem controller_oProcBus (s : State) : s.controller.oProcBus = s.oProcBus := by
  have hw (x : BitVec 11) : x.setWidth 15 = 0#4 ++ x := by
    refine BitVec.eq_of_getLsbD_eq fun j hj => ?_
    rw [BitVec.getLsbD_setWidth, BitVec.getLsbD_append, decide_eq_true hj, Bool.true_and]
    split <;> simp_all
  rw [Controller.oProcBus, State.oProcBus, State.controller, hw, hw]
  refine BitVec.eq_of_getLsbD_eq fun j _ => ?_
  simp only [BitVec.getLsbD_append]
  grind

/-- Whether the line `b` is pending. -/
def Controller.pending (s : Controller iused) (b : ℕ) : Bool := s.rIntState.getLsbD b

/-- Whether the line `b` is high in this clock. -/
def Input.pulses (i : Input iused) (b : ℕ) : Bool := i.iBrdInts.getLsbD b

/-- Whether this clock's write acknowledges the line `b`. -/
def Input.acknowledges (i : Input iused) (b : ℕ) : Bool := i.iWr && i.iProcBus.getLsbD b

/-- The registers after the inputs `is`. -/
abbrev Controller.run (s : Controller iused) (is : List (Input iused)) : Controller iused :=
  is.foldl Controller.step s

/-- In the run `is` from `s`, a line is pending from its pulse to the first write of a later
clock that acknowledges it; no write that acknowledges other lines clears it, and the part of
a write that enables and disables lines changes no pending bit. -/
structure KeepsPulses (s : Controller iused) (is : List (Input iused)) : Prop where
  pulse : ∀ pre i mid post b, is = pre ++ i :: (mid ++ post) → i.pulses b →
    (∀ j ∈ mid, j.acknowledges b = false) → (s.run (pre ++ i :: mid)).pending b
  others : ∀ pre i post b, is = pre ++ i :: post → i.acknowledges b = false →
    (s.run pre).pending b → (s.run (pre ++ [i])).pending b
  enables : ∀ pre i post (j : Input iused), is = pre ++ i :: post → j.iReset = false →
    j.iBrdInts = i.iBrdInts → (∀ b < iused, j.acknowledges b = i.acknowledges b) →
    (s.run (pre ++ [j])).rIntState = (s.run (pre ++ [i])).rIntState

variable {s : Controller iused} {i : Input iused} {is : List (Input iused)} {b : ℕ}

theorem pending_step (hr : i.iReset = false) : (s.step i).pending b =
    ((s.pending b || i.pulses b) && !i.acknowledges b) := by
  by_cases hb : b < iused
  · rw [Controller.pending, Controller.step, hr]
    cases hw : i.iWr <;>
      simp [hw, hb, Controller.pending, Controller.nxtIntState, Input.pulses, Input.acknowledges]
  · rw [not_lt] at hb
    simp [Controller.pending, Input.pulses, hb]

@[simp] theorem run_append_cons (pre mid : List (Input iused)) :
    s.run (pre ++ i :: mid) = ((s.run pre).step i).run mid := by
  rw [Controller.run, List.foldl_append, List.foldl_cons]

theorem pending_run {mid : List (Input iused)} (hr : ∀ j ∈ mid, j.iReset = false)
    (hack : ∀ j ∈ mid, j.acknowledges b = false) (h : s.pending b) : (s.run mid).pending b := by
  induction mid generalizing s with
  | nil => exact h
  | cons j mid ih =>
    rw [List.forall_mem_cons] at hr hack
    refine ih hr.2 hack.2 ?_
    rw [pending_step hr.1, h, hack.1]
    rfl

/-- No line is acknowledged in the clock of its pulse. -/
def Input.separate (i : Input iused) : Prop := ∀ b, i.pulses b → i.acknowledges b = false

/-- Pulses are kept in exactly the runs that acknowledge no line in the clock of its pulse. -/
theorem keepsPulses_iff (hr : ∀ i ∈ is, i.iReset = false) :
    KeepsPulses s is ↔ ∀ i ∈ is, i.separate := by
  constructor
  · intro h i hi b hp
    obtain ⟨pre, post, rfl⟩ := List.append_of_mem hi
    have hk := h.pulse pre i [] post b rfl hp (by simp)
    rw [run_append_cons] at hk
    change ((s.run pre).step i).pending b at hk
    rw [pending_step (hr i hi), Bool.and_eq_true, Bool.not_eq_true'] at hk
    exact hk.2
  · intro h
    refine ⟨?_, ?_, ?_⟩
    · rintro pre i mid post b rfl hp hack
      simp only [List.forall_mem_append, List.forall_mem_cons] at hr h
      rw [run_append_cons]
      refine pending_run hr.2.2.1 hack ?_
      rw [pending_step hr.2.1, hp, h.2.1 b hp, Bool.or_true]
      rfl
    · rintro pre i post b rfl hack hp
      simp only [List.forall_mem_append, List.forall_mem_cons] at hr
      rw [run_append_cons]
      change ((s.run pre).step i).pending b
      rw [pending_step hr.2.1, hp, hack]
      rfl
    · rintro pre i post j rfl hj hints hack
      simp only [List.forall_mem_append, List.forall_mem_cons] at hr
      rw [run_append_cons, run_append_cons]
      refine BitVec.eq_of_getLsbD_eq fun b hb => ?_
      have hpj := pending_step (s := s.run pre) (b := b) hj
      have hpi := pending_step (s := s.run pre) (b := b) hr.2.1
      rw [Input.pulses, hints, hack b hb] at hpj
      exact hpj.trans hpi.symm

/-- The timer pulses while a write enables the line and acknowledges the button. -/
def tick : Input 11 := ⟨false, true, 0x80100001, 0x010⟩

/-- The timer pulses while the last pulse is acknowledged. -/
def tickAcknowledged : Input 11 := ⟨false, true, 0x00000010, 0x010⟩

theorem keepsPulses_iff_tick : KeepsPulses ⟨0, 0, false, false, false⟩ [tick] ↔
    ∀ i ∈ [tick], i.separate :=
  keepsPulses_iff (by simp [tick])

theorem tickAcknowledged_lost :
    ¬ KeepsPulses ⟨0, 0, false, false, false⟩ [tick, tickAcknowledged] := by
  intro h
  exact absurd (h.pulse [tick] tickAcknowledged [] [] 4 rfl (by decide) (by simp)) (by decide)

end S6Soc.Icontrol
