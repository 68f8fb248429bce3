import S6Soc.FailedLoads

/-! Resets of the processor: what its reset input would do, and what the watchdog and the button
do to it. -/
namespace S6Soc.ZipCpu

/-- In supervisor mode, awake, with nothing in the pipeline, and about to fetch from the reset
address. -/
structure State.InReset (s : State) : Prop where
  gie : s.gie = false
  sleep : s.sleep = false
  decode : s.dcd.rValid = false
  operands : s.opValid = false
  alu : s.alu.active = false
  div : (s.div.oBusy || s.div.oValid) = false
  mem : s.mem.active = false
  newPc : s.newPc = true
  pfPc : s.pfPc = resetBusAddress

variable {s : State} {i j : Input}

/-- What the reset input leaves. -/
theorem reset_step (hi : i.iRst) : (step s i).newPc ∧ (step s i).clearIcache ∧
    (step s i).gie = false ∧ (step s i).sleep = false ∧ (step s i).ipc = resetBusAddress ∧
    (step s i).mem.active = false ∧ (step s i).wrRegCe = false := by
  simp [step, State.nextNewPc, State.nextGie, State.nextSleep, State.nextIpc, MemOps.step,
    MemOps.State.active, State.memInput, State.wrRegCe, hi]

/-- A clock with the reset input, and the next without it. -/
theorem inReset_of_reset (h : s.Sound) (hi : i.iRst) (hj : j.iRst = false) :
    (step (step s i) j).InReset := by
  have h' : (step s i).Sound := h.step
  obtain ⟨hn, hc, hg, hs, hpc, hm, hw⟩ := reset_step (s := s) hi
  generalize step s i = t at h' hn hc hg hs hpc hm hw
  have hsw : t.wSwitchToInterrupt j = false := by simp [State.wSwitchToInterrupt, hg]
  have hrel : t.wReleaseFromInterrupt j = false := by simp [State.wReleaseFromInterrupt, hw]
  have hce : t.memCe j = false := by simp [State.memCe, hn]
  constructor
  · simp [step, State.nextGie, hg, hrel]
  · simp [step, State.nextSleep, hj, hsw, hw, hs]
  · simp [step, IDecode.step, State.dcdInput, hn]
  · simp [step, State.nextOpValid, hn]
  · exact CpuOps.not_active_reset hn
  · simp [step, Div.step, State.divInput, hn]
  · by_contra ha
    rcases h'.mem.of_active_step (Bool.eq_true_of_not_eq_false ha) with hst | hcyc
    · simp [State.memInput, hce] at hst
    · simp [MemOps.State.active, hcyc] at hm
  · simp [step, State.nextNewPc, hc]
  · simp [step, State.nextPfPc, hj, hsw, hg, hc, hpc]

end S6Soc.ZipCpu

namespace S6Soc.ZipBones
open Clocked

def State.run (s : State) (is : ℕ → Input) : ℕ → State
  | 0 => s
  | n + 1 => (s.run is n).next (is n)

/-- Whatever the bus, the interrupts and the button do, the processor is in its reset state within
`n` clocks. -/
def State.Resets (s : State) (n : ℕ) : Prop :=
  ∀ is, ∃ k ≤ n, (s.run is k).cpu.InReset

/-- The processor alone, with the bus, the interrupts and the halts of a run, and its reset input
low. -/
def State.unreset (s : State) (is : ℕ → Input) : ℕ → ZipCpu.State
  | 0 => s.cpu
  | n + 1 => ZipCpu.step (s.unreset is n)
      { (s.run is n).cpuInput (is n) with iRst := false }

/-- The watchdog expires in this clock, or the button comes through to the reset logic. -/
def State.Expires (s : State) : Prop := s.watchdog.oInt ∨ s.rButton

variable {s : State} {i : Input} {is : ℕ → Input} {n : ℕ}

theorem sound_of_reachable (h : system.Reachable s) : s.cpu.Sound :=
  h.invariant (P := fun s => s.cpu.Sound) (fun _ ht => ht.cpu.sound) fun _ _ ht _ => ht.step

theorem run_succ : s.run is (n + 1) = (s.next (is 0)).run (fun n => is (n + 1)) n := by
  induction n with
  | zero => rfl
  | succ n ih =>
    change (s.run is (n + 1)).next (is (n + 1)) = _
    rw [ih]
    rfl

theorem cmdReset_run (hr : s.cmdReset = false) : (s.run is n).cmdReset = false := by
  cases n with
  | zero => exact hr
  | succ n => rfl

theorem run_cpu (hr : s.cmdReset = false) : (s.run is n).cpu = s.unreset is n := by
  induction n with
  | zero => rfl
  | succ n ih =>
    have hc : (s.run is n).cpuInput (is n) =
        { (s.run is n).cpuInput (is n) with iRst := false } := by
      simp only [State.cpuInput, State.cpuReset, cmdReset_run hr]
    change ZipCpu.step (s.run is n).cpu ((s.run is n).cpuInput (is n)) = _
    rw [State.unreset, ← ih, hc]

/-- Only the first clock resets the processor, and nothing expires in it. -/
theorem cmdReset_of_reachable (h : system.Reachable s) (he : s.Expires) : s.cmdReset = false := by
  have hk : s.cmdReset → ¬ s.Expires := by
    refine h.invariant (P := fun s => s.cmdReset → ¬ s.Expires) (fun t ht _ he => ?_)
      fun t i _ _ hr => absurd hr Bool.false_ne_true
    rcases he with he | he
    · rw [ht.oInt] at he
      cases he
    · rw [ht.rButton] at he
      cases he
  by_contra hr
  exact hk (Bool.eq_true_of_not_eq_false hr) he

/-- The watchdog and the button reset nothing: when one of them expires, the processor runs on
clock for clock as it does with its reset input low. -/
theorem run_of_expires (h : system.Reachable s) (he : s.Expires) (is : ℕ → Input) (n : ℕ) :
    (s.run is n).cpu = s.unreset is n := run_cpu (cmdReset_of_reachable h he)

/-- The processor comes to its reset state exactly when it would without the watchdog and the
button, its reset input low. -/
theorem resets_iff (h : system.Reachable s) (he : s.Expires) (n : ℕ) :
    s.Resets n ↔ ∀ is, ∃ k ≤ n, (s.unreset is k).InReset := by
  simp only [State.Resets, run_of_expires h he]

/-- Halted by the program, with nothing left to finish. -/
structure State.Asleep (s : State) : Prop where
  sound : s.cpu.Sound
  cmdReset : s.cmdReset = false
  gie : s.cpu.gie = false
  sleep : s.cpu.sleep = true
  alu : s.cpu.alu.active = false
  div : s.cpu.div.active = false
  mem : s.cpu.mem.active = false

theorem State.Asleep.next (h : s.Asleep) : (s.next i).Asleep := by
  have hce : s.cpu.masterCe (s.cpuInput i) = false := by simp [ZipCpu.State.masterCe, h.sleep]
  have hw : s.cpu.wrRegCe = false := by
    have ha := h.alu
    have hd := h.div
    have hm := h.mem
    simp only [CpuOps.State.active, Div.State.active, MemOps.State.active] at ha hd hm
    simp only [ZipCpu.State.wrRegCe]
    grind
  have hr : (s.cpuInput i).iRst = false := h.cmdReset
  have hsw : s.cpu.wSwitchToInterrupt (s.cpuInput i) = false := by
    simp [ZipCpu.State.wSwitchToInterrupt, h.gie]
  have hrel : s.cpu.wReleaseFromInterrupt (s.cpuInput i) = false := by
    simp [ZipCpu.State.wReleaseFromInterrupt, hw]
  refine ⟨h.sound.step, rfl, ?_, ?_, ?_, ?_, ?_⟩
  · simp [State.next, ZipCpu.step, ZipCpu.State.nextGie, h.gie, hrel]
  · simp [State.next, ZipCpu.step, ZipCpu.State.nextSleep, hr, hsw, hw, h.sleep]
  · by_contra ha
    rcases h.sound.alu.of_active_step (Bool.eq_true_of_not_eq_false ha) with hc | hb
    · simp [ZipCpu.State.aluInput, ZipCpu.State.aluCe, hce] at hc
    · have := h.alu
      simp [CpuOps.State.active, hb] at this
  · by_contra hd
    rcases h.sound.div.of_active_step (Bool.eq_true_of_not_eq_false hd) with hc | hb
    · simp [ZipCpu.State.divInput, ZipCpu.State.divCe, hce] at hc
    · have := h.div
      simp [Div.State.active, hb] at this
  · by_contra hm
    rcases h.sound.mem.of_active_step (Bool.eq_true_of_not_eq_false hm) with hc | hb
    · simp [ZipCpu.State.memInput, ZipCpu.State.memCe, hce] at hc
    · have := h.mem
      simp [MemOps.State.active, hb] at this

/-- Neither the watchdog nor anything else wakes it. -/
theorem State.Asleep.run (h : s.Asleep) : (s.run is n).Asleep := by
  induction n with
  | zero => exact h
  | succ n ih => exact ih.next

def unanswered : Input := ⟨false, false, false, false, false, 0⟩

def answering (word : BitVec 32) : Input := ⟨false, false, true, false, false, word⟩

def threes : State := { powerUp with cpu := { powerUp.cpu with regset := fun _ => 3 } }

/-- `SW R0,(0x40c)` has started the watchdog with 3, and `LDI 0x10,CC` is about to put the
processor to sleep. -/
def expiring : State :=
  (List.replicate 6 unanswered ++ [answering 0x04c0040c, answering 0x76000010] ++
    List.replicate 3 unanswered ++ [answering 0, answering 0, unanswered, unanswered, answering 0,
      unanswered, unanswered]).foldl State.next threes

theorem expiring_reachable : system.Reachable expiring := by
  refine (System.reachable_init (M := system) ?_).foldl ?_
  · obtain ⟨hc, h₁, h₂, h₃, h₄, h₅, h₆, h₇, h₈, h₉⟩ := powerUp_init
    exact ⟨{ hc with }, h₁, h₂, h₃, h₄, h₅, h₆, h₇, h₈, h₉⟩
  · exact System.admits_of_free (fun _ _ => trivial) _

theorem expiring_asleep : (expiring.next unanswered).Asleep where
  sound := (sound_of_reachable expiring_reachable).step
  cmdReset := rfl
  gie := by decide +kernel
  sleep := by decide +kernel
  alu := by decide +kernel
  div := by decide +kernel
  mem := by decide +kernel

theorem resets_iff_expiring : expiring.Resets 100 ↔
    ∀ is, ∃ k ≤ 100, (expiring.unreset is k).InReset :=
  resets_iff expiring_reachable (.inl (by decide +kernel)) 100

/-- The watchdog expires, and the processor sleeps on. -/
theorem expiry_ignored : ∃ s, system.Reachable s ∧ s.Expires ∧ ∀ n, ¬ s.Resets n := by
  refine ⟨expiring, expiring_reachable, .inl (by decide +kernel), fun n hr => ?_⟩
  obtain ⟨k, -, hk⟩ := hr fun _ => unanswered
  cases k with
  | zero =>
    have : expiring.cpu.newPc = false := by decide +kernel
    exact absurd (this.symm.trans hk.newPc) (by simp)
  | succ k =>
    rw [run_succ] at hk
    have : ((expiring.next unanswered).run (fun _ => unanswered) k).Asleep := expiring_asleep.run
    exact absurd (this.sleep.symm.trans hk.sleep) (by simp)

end S6Soc.ZipBones
