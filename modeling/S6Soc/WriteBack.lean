import S6Soc.UserMode

/-! Write-back: the unit that writes a register, the register written and the word written there
are chosen by different lines, and always agree. -/
namespace S6Soc.ZipCpu
open Clocked

def processor : System State Input where
  init := State.Initial
  allowed _ _ := True
  next := step

/-- A unit that has a result. -/
inductive Writer
  | alu | div | mem
  deriving DecidableEq

/-- The unit's result is there, and is to be written. -/
def State.writing (s : State) : Writer → Bool
  | .alu => s.aluWR && s.alu.oValid && !s.newPc && !s.aluIllegal
  | .div => s.div.oValid && !s.newPc && !s.aluIllegal
  | .mem => s.mem.oValid

/-- Where the unit writes. -/
def State.target (s : State) : Writer → BitVec 5
  | .alu | .div => s.aluReg
  | .mem => s.mem.oWreg

/-- What the unit writes. -/
def State.value (s : State) : Writer → BitVec 32
  | .alu => s.alu.oC
  | .div => s.div.oQuotient
  | .mem => s.mem.oResult

/-- Nothing is at work beside the divider. -/
structure State.Alone (s : State) : Prop where
  sound : s.Sound
  divides : s.div.active → s.alu.active = false ∧ s.aluWR = false ∧ s.aluWF = false ∧
    s.opValid = false

variable {s : State} {i : Input}

theorem State.Alone.divides_step (h : s.Alone) (hd : (step s i).div.active) :
    (step s i).alu.active = false ∧ (step s i).aluWR = false ∧ (step s i).aluWF = false ∧
      (step s i).opValid = false := by
  have hact := h.sound.div.of_active_step (i := s.divInput i) hd
  have hidle : s.alu.active = false ∧ s.aluCe i = false := by
    rcases hact with hc | hp
    · have hw := h.sound.divCe_waits (i := i) hc
      have ho := h.sound.opAlu
      have ha := h.sound.aluCe_waits (i := i)
      exact ⟨(h.sound.waits hw.1).alu, by grind⟩
    · have hw := h.divides (by simp [Div.State.active, hp])
      have ha := h.sound.aluCe_waits (i := i)
      exact ⟨hw.1, by grind⟩
  have hb : s.alu.rBusy = false := by
    have := hidle.1
    simp only [CpuOps.State.active, Bool.or_eq_false_iff] at this
    exact this.2
  refine ⟨?_, ?_, ?_, ?_⟩
  · by_contra ha
    rcases h.sound.alu.of_active_step (i := s.aluInput i) (Bool.eq_true_of_not_eq_false ha)
      with hc | hc
    · exact absurd hc (by simp [State.aluInput, hidle.2])
    · exact absurd hc (by simp [hb])
  · simp [step, hidle.2, CpuOps.State.oBusy, hb]
  · simp [step, hidle.2, CpuOps.State.oBusy, hb]
  · by_contra hv
    have hd' := ((h.sound.step (i := i)).waits (by simpa using hv)).div
    rw [hd] at hd'
    cases hd'

theorem alone_of_reachable (h : processor.Reachable s) : s.Alone := by
  refine h.invariant (P := State.Alone) (fun t ht => ?_) fun t i ht _ => ?_
  · refine ⟨ht.sound, fun hd => absurd hd ?_⟩
    simp [Div.State.active, Div.State.pending, ht.div.rBusy, ht.div.rSign, ht.div.oValid]
  · exact ⟨ht.sound.step, ht.divides_step⟩

/-- In every run, in every clock: the register file is written exactly when one unit has a result
to write, never two, and it is that unit's register that gets that unit's word. -/
theorem writer_of_reachable (h : processor.Reachable s) :
    (s.wrRegCe ↔ ∃ u, s.writing u) ∧ (∀ u v, s.writing u → s.writing v → u = v) ∧
      ∀ u, s.writing u → s.wrRegId = s.target u ∧ s.wrGpregVl = s.value u := by
  have ha := alone_of_reachable h
  have hm : s.mem.oValid → s.aluWR = false ∧ s.div.oValid = false := by
    intro hv
    obtain ⟨-, hd, hw, -⟩ := ha.sound.loads (by simp [MemOps.State.active, hv])
    simp only [Div.State.active, Bool.or_eq_false_iff] at hd
    exact ⟨hw, hd.2⟩
  have hd : s.div.oValid → s.aluWR = false := fun hv =>
    (ha.divides (by simp [Div.State.active, hv])).2.1
  refine ⟨?_, ?_, ?_⟩
  · constructor
    · intro hw
      simp only [State.wrRegCe, Bool.or_eq_true, Bool.and_eq_true] at hw
      rcases hw with hw | ⟨⟨hn, hi⟩, hw | hw⟩
      · exact ⟨.mem, hw⟩
      · exact ⟨.alu, by simp [State.writing, hw, hn, hi]⟩
      · exact ⟨.div, by simp [State.writing, hw, hn, hi]⟩
    · rintro ⟨u, hu⟩
      cases u <;> simp only [State.writing, State.wrRegCe] at hu ⊢ <;> grind
  · intro u v hu hv
    cases u <;> cases v <;> simp only [State.writing] at hu hv <;> grind
  · intro u hu
    cases u <;> simp only [State.writing, State.wrRegId, State.wrGpregVl, State.target,
      State.value] at hu ⊢ <;> grind

/-- `OR $32,CC` writes CC. -/
theorem writer_toUserLoad :
    ((toUserLoad.take 10).foldl step ZipBones.powerUp.cpu).wrRegId = 0x0e := by
  have hr : processor.Reachable ((toUserLoad.take 10).foldl step ZipBones.powerUp.cpu) :=
    (System.reachable_init (M := processor) ZipBones.powerUp_init.cpu).foldl
      (System.admits_of_free (fun _ _ => trivial) _)
  exact ((writer_of_reachable hr).2.2 .alu (by decide +kernel)).1.trans (by decide +kernel)

end S6Soc.ZipCpu
