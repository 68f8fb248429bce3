import S6Soc.ZipCpu

/-! The units of the processor take turns: while an instruction waits to be issued none is at
work, and while the memory unit is at work the others are not. -/
namespace S6Soc.ZipCpu

/-- What the decoder offers is for one unit. -/
structure Exclusive (d : IDecode.Decoded) : Prop where
  alu : d.oALU → d.oM = false ∧ d.oDV = false
  mem : d.oM → d.oDV = false
  brk : d.oBreak → d.oM = false ∧ d.oDV = false

/-- Nothing is under way behind the operand stage. -/
structure State.Drained (s : State) : Prop where
  alu : s.alu.active = false
  div : s.div.active = false
  mem : s.mem.active = false
  aluWR : s.aluWR = false
  aluWF : s.aluWF = false
  aluIllegal : s.aluIllegal = false

structure State.Sound (s : State) : Prop where
  alu : s.alu.Sound
  div : s.div.Sound
  mem : s.mem.Sound
  decodes : s.dcd.rValid → s.newPc = false → Exclusive s.dcd.out
  opAlu : s.opValidAlu → s.opValid ∧ s.opValidMem = false ∧ s.opValidDiv = false
  opMem : s.opValidMem → s.opValid ∧ s.opValidDiv = false ∧ s.opBreak = false
  opDiv : s.opValidDiv → s.opValid ∧ s.opBreak = false
  orphan : s.div.orphan → s.dcd.rValid = false ∧ s.dcd.oIllegal = false
  waits : s.opValid → s.Drained
  loads : s.mem.active → s.alu.active = false ∧ s.div.active = false ∧ s.aluWR = false ∧
    s.aluWF = false ∧ s.opValid = false

variable {s : State} {i : Input}

theorem exclusive_decode (g : Bool) (iword : BitVec 32) : Exclusive (IDecode.decode g iword) :=
  ⟨IDecode.decode_oALU, IDecode.decode_oM, IDecode.decode_oBreak⟩

theorem State.Sound.aluCe_waits (h : s.Sound) (hc : s.aluCe i) : s.opValid ∧ s.opValidAlu := by
  have : s.opValidAlu := by
    simp only [State.aluCe, Bool.and_eq_true] at hc
    exact hc.1.1.2
  exact ⟨(h.opAlu this).1, this⟩

theorem State.Sound.divCe_waits (h : s.Sound) (hc : s.divCe i) : s.opValid ∧ s.opValidDiv := by
  have : s.opValidDiv := by
    simp only [State.divCe, Bool.and_eq_true] at hc
    exact hc.1.1.1.2
  exact ⟨(h.opDiv this).1, this⟩

theorem State.Sound.memCe_waits (h : s.Sound) (hc : s.memCe i) : s.opValid ∧ s.opValidMem := by
  have : s.opValidMem := by
    simp only [State.memCe, Bool.and_eq_true] at hc
    exact hc.1.1.2
  exact ⟨(h.opMem this).1, this⟩

/-- Whatever is issued leaves the operand stage. -/
theorem State.Sound.issued (h : s.Sound) (hc : s.aluCe i ∨ s.divCe i ∨ s.memCe i) :
    s.adfCeUnconditional i ∨ s.memCe i := by
  rcases hc with hc | hc | hc
  · have hw := h.waits (h.aluCe_waits hc).1
    have ho := h.opAlu (h.aluCe_waits hc).2
    have := h.div.pending_of_busy
    have hm := hw.mem
    have hd := hw.div
    left
    simp only [State.aluCe, State.aluStall, State.adfCeUnconditional, State.memRdbusy,
      MemOps.State.oBusy, MemOps.State.active, Div.State.active] at *
    grind
  · have hw := h.waits (h.divCe_waits hc).1
    have ho := h.opDiv (h.divCe_waits hc).2
    have ha := h.opAlu
    have hm := h.opMem
    left
    simp only [State.divCe, State.adfCeUnconditional] at *
    grind
  · exact .inr hc

theorem State.Sound.opValid_step (h : s.Sound) (ho : (step s i).opValid) :
    s.opCe ∨ s.opValid ∧ s.aluCe i = false ∧ s.divCe i = false ∧ s.memCe i = false := by
  have hi := h.issued (i := i)
  simp only [step, State.nextOpValid] at ho
  grind

theorem State.Sound.free_of_opCe (h : s.Sound) (hc : s.opCe) :
    s.alu.rBusy = false ∧ s.div.oBusy = false ∧ s.mem.rWbCycGbl = false ∧ s.opValid = false ∧
      s.div.orphan = false := by
  have ho := h.orphan
  simp only [State.opCe, State.opStall, CpuOps.State.oBusy, MemOps.State.oBusy] at hc
  grind

theorem State.Sound.fits (h : s.Sound) : Div.Fits s.div (s.divInput i) := by
  constructor
  · intro hw
    simp only [State.divInput, State.divCe] at hw ⊢
    grind
  · intro hw
    have hd := (h.waits (h.divCe_waits hw).1).div
    simp only [Div.State.active] at hd
    grind

theorem State.Sound.alu_step (h : s.Sound) : (step s i).alu.Sound :=
  h.alu.step fun hc => by
    have ha := (h.waits (h.aluCe_waits hc).1).alu
    simp only [CpuOps.State.active] at ha
    grind

theorem State.Sound.decodes_step (h : s.Sound) (hv : (step s i).dcd.rValid) :
    Exclusive (step s i).dcd.out := by
  have hd := h.decodes
  cases hc : s.dcdCe with
  | true =>
    simp only [step, IDecode.step, State.dcdInput, hc, if_true]
    exact exclusive_decode _ _
  | false =>
    simp only [step, IDecode.step, State.dcdInput, hc] at hv ⊢
    grind

/-- Nothing but an instruction taken up or kept waiting is at the operand stage, and nothing is
under way beside it. -/
theorem State.Sound.waits_step (h : s.Sound) (ho : (step s i).opValid) : (step s i).Drained := by
  obtain ⟨ha, hd, hm, hb⟩ : s.alu.rBusy = false ∧ s.div.pending = false ∧
      s.mem.rWbCycGbl = false ∧ (s.aluCe i = false ∧ s.divCe i = false ∧ s.memCe i = false) := by
    rcases h.opValid_step ho with hc | ⟨hv, hi⟩
    · obtain ⟨ha, hd, hm, hv, horph⟩ := h.free_of_opCe hc
      have h₁ := h.aluCe_waits (i := i)
      have h₂ := h.divCe_waits (i := i)
      have h₃ := h.memCe_waits (i := i)
      have h₄ := h.div.busy
      refine ⟨ha, ?_, hm, ?_⟩
      · simp only [Div.State.pending, Div.State.orphan] at horph ⊢
        grind
      · grind
    · have hw := h.waits hv
      have h₁ := hw.alu
      have h₂ := hw.div
      have h₃ := hw.mem
      simp only [CpuOps.State.active, Div.State.active, MemOps.State.active] at h₁ h₂ h₃
      grind
  have h₁ := h.alu.of_active_step (i := s.aluInput i)
  have h₂ := h.div.of_active_step (i := s.divInput i)
  have h₃ := h.mem.of_active_step (i := s.memInput i)
  refine ⟨?_, ?_, ?_, ?_, ?_, ?_⟩
  · simp only [step, State.aluInput] at h₁ ⊢
    grind
  · simp only [step, State.divInput] at h₂ ⊢
    grind
  · simp only [step, State.memInput] at h₃ ⊢
    grind
  · simp only [step, CpuOps.State.oBusy]
    grind
  · simp only [step, CpuOps.State.oBusy]
    grind
  · simp only [step]
    grind

theorem State.Sound.loads_step (h : s.Sound) (hm : (step s i).mem.active) :
    (step s i).alu.active = false ∧ (step s i).div.active = false ∧ (step s i).aluWR = false ∧
      (step s i).aluWF = false ∧ (step s i).opValid = false := by
  have hst := h.mem.of_active_step (i := s.memInput i) hm
  have hmem := h.memCe_waits (i := i)
  have hc : s.memCe i ∨ s.mem.rWbCycGbl := by
    simp only [State.memInput, Bool.and_eq_true] at hst
    grind
  have hidle : s.alu.active = false ∧ s.div.active = false ∧ s.aluCe i = false ∧
      s.divCe i = false := by
    have h₁ := h.aluCe_waits (i := i)
    have h₂ := h.divCe_waits (i := i)
    rcases hc with hc | hc
    · have hw := h.waits (hmem hc).1
      have := h.opMem (hmem hc).2
      have := h.opAlu
      exact ⟨hw.alu, hw.div, by grind, by grind⟩
    · have hl := h.loads (by simp [MemOps.State.active, hc])
      exact ⟨hl.1, hl.2.1, by grind, by grind⟩
  have h₁ := h.alu.of_active_step (i := s.aluInput i)
  have h₂ := h.div.of_active_step (i := s.divInput i)
  obtain ⟨ha, hd, hac, hdc⟩ := hidle
  simp only [CpuOps.State.active, Div.State.active, Bool.or_eq_false_iff] at ha hd
  refine ⟨?_, ?_, ?_, ?_, ?_⟩
  · simp only [step, State.aluInput] at h₁ ⊢
    grind
  · simp only [step, State.divInput] at h₂ ⊢
    grind
  · simp only [step, CpuOps.State.oBusy]
    grind
  · simp only [step, CpuOps.State.oBusy]
    grind
  · rcases hc with hc | hc
    · have := (hmem hc).1
      simp only [step, State.nextOpValid, State.opCe, State.opStall]
      grind
    · have hl := h.loads (by simp [MemOps.State.active, hc])
      simp only [step, State.nextOpValid, State.opCe, State.opStall, MemOps.State.oBusy]
      grind

theorem State.Sound.step (h : s.Sound) : (ZipCpu.step s i).Sound where
  alu := h.alu_step
  div := h.div.step h.fits
  mem := h.mem.step rfl
  decodes hv _ := h.decodes_step hv
  opAlu hv := by
    have hd (hr : s.dcd.rValid) (hn : s.newPc = false) := (h.decodes hr hn).alu
    have ho := h.opAlu
    simp only [ZipCpu.step, State.nextOpValid] at hv ⊢
    grind
  opMem hv := by
    have hd (hr : s.dcd.rValid) (hn : s.newPc = false) := (h.decodes hr hn).mem
    have hb (hr : s.dcd.rValid) (hn : s.newPc = false) := (h.decodes hr hn).brk
    have ho := h.opMem
    simp only [ZipCpu.step, State.nextOpValid] at hv ⊢
    grind
  opDiv hv := by
    have hb (hr : s.dcd.rValid) (hn : s.newPc = false) := (h.decodes hr hn).brk
    have ho := h.opDiv
    simp only [ZipCpu.step, State.nextOpValid] at hv ⊢
    grind
  orphan ho := by
    have hr := h.div.reset_of_orphan h.fits ho
    simp only [State.divInput] at hr
    simp only [ZipCpu.step, IDecode.step, State.dcdInput]
    grind
  waits := h.waits_step
  loads := h.loads_step

theorem State.Initial.sound (h : s.Initial) : s.Sound where
  alu := ⟨.inl h.alu.mpypipe, by simp [h.alu.mpypipe, h.alu.rBusy], by simp [h.alu.rBusy]⟩
  div := by
    obtain ⟨h₁, h₂, h₃, h₄, h₅, h₆, h₇, h₈⟩ := h.div
    constructor <;> simp [*]
  mem := ⟨h.memLock, fun _ => by simp [h.memCyc]⟩
  decodes _ hn := absurd h.newPc (by simp [hn])
  opAlu hv := absurd h.opValidAlu (by simp [hv])
  opMem hv := absurd h.opValidMem (by simp [hv])
  opDiv hv := absurd h.opValidDiv (by simp [hv])
  orphan ho := by simp [Div.State.orphan, h.div.rSign] at ho
  waits hv := absurd h.opValid (by simp [hv])
  loads _ := by
    simp [CpuOps.State.active, Div.State.active, Div.State.pending, h.alu.oValid, h.alu.rBusy,
      h.div.rBusy, h.div.rSign, h.div.oValid, h.aluWR, h.aluWF, h.opValid]

/-- Only a load writes while its word is there. -/
theorem State.Sound.load_writes (h : s.Sound) (hv : s.mem.oValid) :
    s.wrRegCe ∧ s.wrRegId = s.mem.oWreg ∧ s.wrGpregVl = s.mem.oResult := by
  obtain ⟨-, hd, hw, -⟩ := h.loads (by simp [MemOps.State.active, hv])
  simp only [Div.State.active, Bool.or_eq_false_iff] at hd
  simp [State.wrRegCe, State.wrRegId, State.wrGpregVl, hv, hw, hd.2]

end S6Soc.ZipCpu
