import S6Soc.Divide
import S6Soc.IssueOrder
import S6Soc.Multiply
import S6Soc.WriteBack

/-! Execution: what a unit writes is the result of the instruction issued last, of operands that
are still in the registers it read them from. -/
namespace S6Soc.CpuOps

/-- What an operation makes of its operands. -/
def word (op : BitVec 4) (a b : BitVec 32) : BitVec 32 :=
  if op = 10 then MultiplyOp.mpyuhi.word a b
  else if op = 11 then MultiplyOp.mpyshi.word a b
  else if op = 12 then MultiplyOp.mpy.word a b
  else (result op a b 0).2

/-- At work on one operation, or done with it. -/
structure Working (op : BitVec 4) (a b : BitVec 32) (s : State) : Prop where
  busy : s.rBusy → ∃ o : MultiplyOp, ∃ k, op = o.code ∧ Waiting mpy4 Holds4 o a b k s.alu
  valid : s.oValid → s.oC = word op a b

variable {s : State} {i : Input} {op : BitVec 4} {a b : BitVec 32}

theorem word_code (o : MultiplyOp) : word o.code a b = o.word a b := by
  cases o <;> rfl

theorem word_of_not_multiply {m : BitVec 64} (h : isMultiply op = false) :
    word op a b = (result op a b m).2 := by
  obtain ⟨h10, h11, h12⟩ : op ≠ 10 ∧ op ≠ 11 ∧ op ≠ 12 := by
    revert op
    decide
  rw [word, if_neg h10, if_neg h11, if_neg h12]
  simp only [result, h10, h11, h12, or_self, if_false]

theorem State.Sound.quiet (h : s.Sound) (hb : s.rBusy = false) : s.alu.multiplier.mpypipe = 0 := by
  have := h.busy
  rw [hb] at this
  simpa [State.alu] using this.symm

theorem Working.start (h : s.Sound) (hb : s.rBusy = false) (hr : i.iRst = false) (hc : i.iCe) :
    Working i.iOp i.iA i.iB (step s i) := by
  cases hm : isMultiply i.iOp with
  | true =>
    obtain ⟨o, ho⟩ := exists_code hm
    have hw := pipelined_mpy4.begins (h.quiet hb) hr hc ho
    rw [← alu_step] at hw
    refine ⟨fun _ => ⟨o, 1, ho, hw⟩, fun hv => ?_⟩
    rw [show (step s i).oValid = false from hw.oValid] at hv
    cases hv
  | false =>
    constructor
    · intro hbusy
      have hp := h.quiet hb
      simp only [State.alu] at hp
      simp [step, hm, State.mpybusy, hp] at hbusy
    · intro _
      rw [word_of_not_multiply (m := s.rMpyResult) hm]
      simp [step, hc]

theorem Working.next (h : Working op a b s) (hb : s.rBusy) (hr : i.iRst = false)
    (hc : i.iCe = false) : Working op a b (step s i) := by
  obtain ⟨o, k, ho, hw⟩ := h.busy hb
  obtain hk | hk : k + 1 < 4 ∨ k + 1 = 4 := by
    have : k < 4 := hw.lt
    omega
  · have hn := pipelined_mpy4.waits hw hk hr hc
    rw [← alu_step] at hn
    refine ⟨fun _ => ⟨o, k + 1, ho, hn⟩, fun hv => ?_⟩
    rw [show (step s i).oValid = false from hn.oValid] at hv
    cases hv
  · obtain ⟨-, hbusy, hres, -⟩ := pipelined_mpy4.delivers_last hw hk hr hc
    rw [← alu_step] at hbusy hres
    refine ⟨fun hbusy' => ?_, fun _ => ?_⟩
    · rw [show (step s i).rBusy = false from hbusy] at hbusy'
      cases hbusy'
    · rw [ho, word_code]
      exact hres

end S6Soc.CpuOps

namespace S6Soc.Div

theorem State.Sound.free {s : State} (h : s.Sound) (ha : s.active = false) :
    Free s ∧ s.rSign = false := by
  have hp := h.pending_of_busy
  have hpre := h.preSign
  have hz := h.zero
  simp only [State.active, State.pending, Bool.or_eq_false_iff] at ha hp
  have hs : s.rSign = false := by grind
  exact ⟨⟨ha.1.1, by grind, by grind, fun hsign => absurd hsign (by simp [hs])⟩, hs⟩

end S6Soc.Div

namespace S6Soc.ZipCpu
open Clocked
open IDecode (Issue)

/-- `w_op_Av`, and what the PC and CC stand for. -/
def State.operandA (s : State) : BitVec 32 :=
  if s.dcd.out.oDcdA.pc then s.wPcV s.dcd.out.oDcdA.id
  else if s.dcd.out.oDcdA.cc then s.ccV s.dcd.out.oDcdA.id
  else s.regset s.dcd.out.oDcdA.id

def State.operandB (s : State) : BitVec 32 :=
  if s.dcd.out.oDcdB.pc && s.dcd.out.oRB then
    s.wPcV s.dcd.out.oDcdB.id + (s.dcd.oI.extractLsb' 0 30 ++ (0 : BitVec 2))
  else s.wOpBnI + s.dcd.oI

/-- The flags that the conditions of a mode look at. -/
def State.flagsOf (s : State) (g : Bool) : BitVec 4 := if g then s.flags else s.iflags

/-- An instruction, with what the operand stage found for it: the registers, the flags of its mode
and the operands made of them. -/
structure Work where
  held : Issue
  regs : BitVec 5 → BitVec 32
  flags : BitVec 4
  a : BitVec 32
  b : BitVec 32

def State.work (s : State) : Work :=
  ⟨s.dcd.held, s.regset, s.flagsOf s.dcd.oGie, s.operandA, s.operandB⟩

/-- The operands, where they are neither PC nor CC. -/
structure Work.Reads (w : Work) : Prop where
  a : w.held.seen.oDcdA.pc = false → w.held.seen.oDcdA.cc = false →
    w.a = w.regs w.held.seen.oDcdA.id
  b : w.held.seen.oRB → w.held.seen.oDcdB.pc = false → w.held.seen.oDcdB.cc = false →
    w.b = w.regs w.held.seen.oDcdB.id + w.held.seen.rI.signExtend 32
  imm : w.held.seen.oRB = false → w.b = w.held.seen.rI.signExtend 32

/-- The condition of the instruction holds. -/
def Work.runs (w : Work) : Bool :=
  let f := condition (w.held.seen.oCond.setWidth 3)
  (BitVec.ofBool (f.getLsbD 3) ++ f).extractLsb' 4 4 &&& w.flags ==
    (BitVec.ofBool (f.getLsbD 3) ++ f).setWidth 4

/-- What a divider is asked for. -/
def Work.request (w : Work) : Div.Input := ⟨false, true, w.held.seen.oOp.getLsbD 0, w.a, w.b⟩

/-- What the instruction makes of its operands, and a load of the word on the bus. Nothing is said
about a division by zero. -/
def Work.Yields (w : Work) (data : BitVec 32) (v : BitVec 32) : Writer → Prop
  | .alu => v = CpuOps.word w.held.seen.oOp w.a w.b
  | .div => w.b ≠ 0 → v = w.request.quotient
  | .mem => v =
    MemOps.readData (MemOps.size (w.held.seen.oOp.setWidth 3) ++ w.b.extractLsb' 0 2) data

/-- The processor; the instruction that the operand stage took last; whether the divider had only
the sign of a division that was taken away to change; and the word that was on the bus. -/
structure Executing where
  cpu : State
  work : Work
  stray : Bool
  data : BitVec 32

def Executing.next (x : Executing) (i : Input) : Executing where
  cpu := step x.cpu i
  work := if x.cpu.opCe && x.cpu.dcd.rValid && !x.cpu.newPc then x.cpu.work else x.work
  stray := x.cpu.div.orphan
  data := i.iWbData

def executing : System Executing Input where
  init x := x.cpu.Initial ∧ x.stray = false
  allowed _ _ := True
  next := Executing.next

/-- The instruction waits in the operand stage. -/
structure Executing.Waits (x : Executing) : Prop where
  regs : x.work.regs = x.cpu.regset
  flags : x.work.flags = x.cpu.flagsOf x.cpu.opGie
  a : x.cpu.opAv = x.work.a
  b : x.cpu.opBv = x.work.b
  op : x.cpu.opOpn = x.work.held.seen.oOp
  reg : x.cpu.opR = x.work.held.seen.oDcdR.id
  wr : x.cpu.opWR = (x.work.held.seen.oWR && !x.work.held.illegal)
  cond : x.cpu.rOpF = condition (x.work.held.seen.oCond.setWidth 3)

/-- The arithmetic unit has it. -/
structure Executing.Calculates (x : Executing) : Prop where
  regs : x.work.regs = x.cpu.regset
  working : CpuOps.Working x.work.held.seen.oOp x.work.a x.work.b x.cpu.alu
  reg : x.cpu.aluReg = x.work.held.seen.oDcdR.id
  stays : x.cpu.alu.rBusy → x.cpu.opR = x.work.held.seen.oDcdR.id
  wr : x.cpu.aluWR → x.work.held.seen.oWR ∧ x.work.held.illegal = false ∧ x.work.runs

/-- The divider has it. -/
structure Executing.Divides (x : Executing) : Prop where
  regs : x.work.regs = x.cpu.regset
  runs : x.work.runs
  stage : ∃ n, Div.Stage x.work.request n x.cpu.div
  reg : x.cpu.aluReg = x.work.held.seen.oDcdR.id
  stays : x.cpu.div.oBusy → x.cpu.opR = x.work.held.seen.oDcdR.id

/-- The memory unit has it, and it is a load. -/
structure Executing.Loads (x : Executing) : Prop where
  regs : x.work.regs = x.cpu.regset
  runs : x.work.runs
  reg : x.cpu.mem.oWreg = x.work.held.seen.oDcdR.id
  lanes : x.cpu.mem.rOp =
    MemOps.size (x.work.held.seen.oOp.setWidth 3) ++ x.work.b.extractLsb' 0 2
  valid : x.cpu.mem.oValid → x.cpu.mem.oResult = MemOps.readData x.cpu.mem.rOp x.data

structure Executing.Kept (x : Executing) : Prop where
  alone : x.cpu.Alone
  stray : x.stray → x.cpu.div.pending = false
  waits : x.cpu.opValid → x.Waits ∧ x.work.Reads
  alu : x.cpu.alu.active → x.Calculates ∧ x.work.Reads
  div : x.cpu.div.active → x.cpu.div.orphan = false → x.stray = false → x.Divides ∧ x.work.Reads
  mem : x.cpu.mem.oValid ∨ x.cpu.mem.rWbCycGbl ∧ x.cpu.mem.oWbWe = false →
    x.Loads ∧ x.work.Reads
  orphan : x.cpu.div.orphan → x.cpu.div.oValid = false

variable {x : Executing} {s : State} {i : Input} {u : Writer}

theorem reads_work (s : State) : s.work.Reads := by
  constructor
  · intro hp hc
    change s.dcd.out.oDcdA.pc = false at hp
    change s.dcd.out.oDcdA.cc = false at hc
    simp [State.work, State.operandA, IDecode.State.held, IDecode.Decoded.seen, hp, hc]
  · intro hb hp hc
    change s.dcd.out.oRB = true at hb
    simp only [State.work, State.operandB, IDecode.State.held, IDecode.Decoded.seen, hb,
      if_true, State.wOpBnI, IDecode.State.oI] at hp hc ⊢
    simp [hp, hc]
  · intro hb
    change s.dcd.out.oRB = false at hb
    simp [State.work, State.operandB, IDecode.State.held, IDecode.Decoded.seen, hb,
      State.wOpBnI, IDecode.State.oI]

/-- No unit writes anything while an instruction is in the operand stage. -/
theorem State.Sound.still (h : s.Sound) (hv : s.opValid) :
    s.wrRegCe = false ∧ s.wrFlagsCe = false := by
  obtain ⟨ha, hd, hm, hw, hf, -⟩ := h.waits hv
  simp only [CpuOps.State.active, Div.State.active, MemOps.State.active,
    Bool.or_eq_false_iff] at ha hd hm
  simp [State.wrRegCe, State.wrFlagsCe, ha, hd, hm, hf]

theorem files_step (hr : s.wrRegCe = false) (hf : s.wrFlagsCe = false) (g : Bool) :
    (step s i).regset = s.regset ∧ (step s i).flagsOf g = s.flagsOf g := by
  simp [step, State.flagsOf, hr, hf]

theorem opValid_cases (hv : (step s i).opValid) :
    (s.opCe ∧ s.dcd.rValid ∧ s.newPc = false) ∨ s.opValid := by
  simp only [step, State.nextOpValid] at hv
  grind

theorem not_opCe (hs : s.opStall) : s.opCe = false ∧ s.opChangeDataCe = false := by
  simp [State.opCe, State.opChangeDataCe, hs]

/-- While something is under way the instruction is the last one taken. -/
theorem work_next (hs : x.cpu.opStall) : (x.next i).work = x.work := by
  simp [Executing.next, not_opCe hs]

theorem Executing.takes (hc : x.cpu.opCe) (hv : x.cpu.dcd.rValid)
    (hn : x.cpu.newPc = false) : (x.next i).Waits ∧ (x.next i).work = x.cpu.work := by
  have hs : x.cpu.opStall = false := by
    simp only [State.opCe, Bool.and_eq_true] at hc
    simpa using hc.2
  have hw : (x.next i).work = x.cpu.work := by simp [Executing.next, hc, hv, hn]
  have hstill : x.cpu.wrRegCe = false ∧ x.cpu.wrFlagsCe = false := by
    simp only [State.opStall, Bool.or_eq_false_iff] at hs
    exact ⟨hs.1.1.1.2, hs.2⟩
  have hfile := files_step (i := i) hstill.1 hstill.2
  have hd : x.cpu.opChangeDataCe = true := by simp [State.opChangeDataCe, hs]
  refine ⟨?_, hw⟩
  constructor <;> rw [hw]
  · exact (hfile false).1.symm
  · rw [show (x.next i).cpu.flagsOf _ = x.cpu.flagsOf _ from (hfile _).2]
    simp [Executing.next, step, hd, State.work]
  all_goals simp [Executing.next, step, hc, hd, State.work, State.operandA, State.operandB,
    IDecode.State.held, IDecode.Decoded.seen]

theorem Executing.Waits.stays (h : x.Waits) (hs : x.cpu.Sound) (hv : x.cpu.opValid) :
    (x.next i).Waits := by
  have hst := opStall_of_opValid hv
  obtain ⟨hc, hd⟩ := not_opCe hst
  obtain ⟨hr, hf⟩ := hs.still hv
  have hfile := files_step (i := i) hr hf
  constructor <;> rw [work_next hst]
  · exact h.regs.trans (hfile false).1.symm
  · rw [show (x.next i).cpu.flagsOf _ = x.cpu.flagsOf _ from (hfile _).2,
      show (x.next i).cpu.opGie = x.cpu.opGie from (stalled_step hst).1]
    exact h.flags
  · simpa [Executing.next, step, hc] using h.a
  · simpa [Executing.next, step, hc] using h.b
  · simpa [Executing.next, step, hd] using h.op
  · exact (stalled_step hst).2.trans h.reg
  · simpa [Executing.next, step, hc] using h.wr
  · simpa [Executing.next, step, hc] using h.cond

theorem Executing.Kept.waits_next (h : x.Kept) (hv : (x.next i).cpu.opValid) :
    (x.next i).Waits ∧ (x.next i).work.Reads := by
  rcases opValid_cases hv with ⟨hc, hv, hn⟩ | hv
  · obtain ⟨hw, he⟩ := Executing.takes hc hv hn
    exact ⟨hw, he ▸ reads_work _⟩
  · obtain ⟨hw, hr⟩ := h.waits hv
    exact ⟨hw.stays h.alone.sound hv, (work_next (opStall_of_opValid hv)).symm ▸ hr⟩

/-- The condition of what waits is decided by the flags it found. -/
theorem Executing.Waits.setCond (h : x.Waits) (hs : x.cpu.Sound) (hv : x.cpu.opValid) :
    x.cpu.setCond = x.work.runs := by
  have hf := (hs.still hv).2
  have hfl : x.cpu.opFl = x.work.flags := by
    rw [h.flags, State.opFl, State.flagsOf, State.wUflags, State.wIflags, hf,
      BitVec.setWidth_append_eq_right, BitVec.setWidth_append_eq_right]
    simp
  simp [State.setCond, State.opF, Work.runs, h.cond, hfl]

theorem regset_step (hr : s.wrRegCe = false) : (step s i).regset = s.regset := by
  simp [step, hr]

theorem State.Alone.not_aluCe (h : s.Alone) (hb : s.alu.rBusy) : s.aluCe i = false := by
  by_contra hc
  have hv := (h.sound.aluCe_waits (i := i) (Bool.eq_true_of_not_eq_false hc)).1
  have ha := (h.sound.waits hv).alu
  simp [CpuOps.State.active, hb] at ha

/-- Nothing is written while a multiplication is under way. -/
theorem State.Alone.still_alu (h : s.Alone) (hb : s.alu.rBusy) : s.wrRegCe = false := by
  have hv := h.sound.alu.valid
  have hd := h.divides
  have hm := h.sound.loads
  simp only [CpuOps.State.active, Div.State.active, MemOps.State.active] at hd hm
  simp only [State.wrRegCe]
  grind

/-- Nothing is written while the memory unit has the bus. -/
theorem State.Sound.still_mem (h : s.Sound) (hb : s.mem.rWbCycGbl) : s.wrRegCe = false := by
  have hm := h.loads (by simp [MemOps.State.active, hb])
  have ht := h.mem.told
  simp only [CpuOps.State.active, Div.State.active] at hm
  simp only [State.wrRegCe]
  grind

theorem Executing.Kept.alu_next (h : x.Kept) (ha : (x.next i).cpu.alu.active) :
    (x.next i).Calculates ∧ (x.next i).work.Reads := by
  have hs := h.alone.sound
  have hr : (x.cpu.aluInput i).iRst = false := by
    by_contra hr
    exact absurd ha (by simp [Executing.next, step, CpuOps.not_active_reset
      (i := x.cpu.aluInput i) (by simpa using hr)])
  rcases hs.alu.of_active_step (i := x.cpu.aluInput i) ha with hc | hb
  · have hv := (hs.aluCe_waits hc).1
    have hst := opStall_of_opValid hv
    obtain ⟨hw, hread⟩ := h.waits hv
    have hfile := files_step (i := i) (hs.still hv).1 (hs.still hv).2
    have hidle := (hs.waits hv).alu
    simp only [CpuOps.State.active, Bool.or_eq_false_iff] at hidle
    refine ⟨⟨?_, ?_, ?_, fun _ => ?_, ?_⟩, ?_⟩ <;> rw [work_next hst]
    · exact hw.regs.trans (hfile false).1.symm
    · have hwork := CpuOps.Working.start hs.alu hidle.2 hr hc
      rw [← hw.op, ← hw.a, ← hw.b]
      exact hwork
    · exact hw.reg
    · exact (stalled_step hst).2.trans hw.reg
    · have hwr := hw.wr
      have hcond := hw.setCond hs hv
      simp only [Executing.next, step, show x.cpu.aluCe i = true from hc]
      grind
    · exact hread
  · have hst := opStall_of_alu hb
    obtain ⟨hw, hread⟩ := h.alu (by simp [CpuOps.State.active, hb])
    have hc : x.cpu.aluCe i = false := h.alone.not_aluCe hb
    refine ⟨⟨?_, ?_, ?_, fun _ => ?_, ?_⟩, ?_⟩ <;> rw [work_next hst]
    · rw [hw.regs]
      exact (regset_step (h.alone.still_alu hb)).symm
    · exact hw.working.next hb hr hc
    · exact hw.stays hb
    · exact (stalled_step hst).2.trans (hw.stays hb)
    · have hwr := hw.wr
      simp only [Executing.next, step, hc, CpuOps.State.oBusy, hb]
      grind
    · exact hread

theorem Executing.Kept.mem_next (h : x.Kept) (ha : (x.next i).cpu.mem.oValid ∨
    (x.next i).cpu.mem.rWbCycGbl ∧ (x.next i).cpu.mem.oWbWe = false) :
    (x.next i).Loads ∧ (x.next i).work.Reads := by
  have hs := h.alone.sound
  have hact : (x.next i).cpu.mem.active := by
    simp only [MemOps.State.active]
    grind
  rcases hs.mem.of_active_step (i := x.cpu.memInput i) hact with hc | hb
  · have hce : x.cpu.memCe i ∧ x.cpu.setCond := by simpa [State.memInput] using hc
    have hv := (hs.memCe_waits hce.1).1
    have hst := opStall_of_opValid hv
    obtain ⟨hw, hread⟩ := h.waits hv
    have hfile := files_step (i := i) (hs.still hv).1 (hs.still hv).2
    have hidle := (hs.waits hv).mem
    simp only [MemOps.State.active, Bool.or_eq_false_iff] at hidle
    refine ⟨⟨?_, ?_, ?_, ?_, ?_⟩, (work_next hst).symm ▸ hread⟩
    · rw [work_next hst]
      exact hw.regs.trans (hfile false).1.symm
    · rw [work_next hst, ← hw.setCond hs hv]
      exact hce.2
    · rw [work_next hst, ← hw.reg]
      exact if_pos hc
    · rw [work_next hst, ← hw.op, ← hw.b]
      exact if_pos hc
    · intro hval
      simp [Executing.next, step, MemOps.step, MemOps.State.oWbCycGbl, hidle, hs.mem.lock] at hval
  · have hst := opStall_of_mem hb
    have hc : (x.cpu.memInput i).iStb = false := by
      have hm := hs.memCe_waits (i := i)
      have hl := (hs.loads (by simp [MemOps.State.active, hb])).2.2.2.2
      simp only [State.memInput]
      grind
    have hwe : x.cpu.mem.oWbWe = false := by
      simp only [Executing.next, step, MemOps.step, hc] at ha
      grind
    obtain ⟨hw, hread⟩ := h.mem (.inr ⟨hb, hwe⟩)
    have hop : (x.next i).cpu.mem.rOp = x.cpu.mem.rOp := by
      simp [Executing.next, step, MemOps.step, hc]
    refine ⟨⟨?_, ?_, ?_, ?_, ?_⟩, (work_next hst).symm ▸ hread⟩
    · rw [work_next hst, hw.regs]
      exact (regset_step (hs.still_mem hb)).symm
    · rw [work_next hst]
      exact hw.runs
    · rw [work_next hst]
      simpa [Executing.next, step, MemOps.step, hc] using hw.reg
    · rw [work_next hst, hop]
      exact hw.lanes
    · intro _
      rw [hop]
      rfl

/-- Nothing is written while a division is under way. -/
theorem State.Alone.still_div (h : s.Alone) (hb : s.div.oBusy) : s.wrRegCe = false := by
  have ha := h.divides (by simp [Div.State.active, h.sound.div.pending_of_busy hb])
  have hact : s.div.active := by simp [Div.State.active, h.sound.div.pending_of_busy hb]
  have hv := h.sound.div.valid
  have hm := h.sound.loads
  simp only [MemOps.State.active] at hm
  simp only [State.wrRegCe]
  grind

theorem Executing.Kept.stray_next (h : x.Kept) (hs : (x.next i).stray) :
    (x.next i).cpu.div.pending = false := by
  change x.cpu.div.orphan = true at hs
  have hp : x.cpu.div.pending := by
    simp only [Div.State.orphan, Div.State.pending] at hs ⊢
    grind
  have hw : (x.cpu.divInput i).iWr = false := by
    have hv := h.alone.sound.divCe_waits (i := i)
    have ha := (h.alone.divides (by simp [Div.State.active, hp])).2.2.2
    simp only [State.divInput]
    grind
  by_contra hn
  have hb := h.alone.sound.div.oBusy_of_pending_step (i := x.cpu.divInput i) hw
    (Bool.eq_true_of_not_eq_false hn)
  simp [Div.State.orphan, hb] at hs

theorem Executing.Kept.div_next (h : x.Kept) (ha : (x.next i).cpu.div.active)
    (ho : (x.next i).cpu.div.orphan = false) (hstray : (x.next i).stray = false) :
    (x.next i).Divides ∧ (x.next i).work.Reads := by
  have hs := h.alone.sound
  have hr : (x.cpu.divInput i).iRst = false := by
    by_contra hr
    have := Div.orphan_of_active_reset (hs.fits (i := i)) (by simpa using hr) ha
    exact absurd this
      (by simp [show (Div.step x.cpu.div (x.cpu.divInput i)).orphan = false from ho])
  rcases hs.div.of_active_step (i := x.cpu.divInput i) ha with hc | hp
  · have hce : x.cpu.divCe i = true := hc
    have hv := (hs.divCe_waits hce).1
    have hst := opStall_of_opValid hv
    obtain ⟨hw, hread⟩ := h.waits hv
    have hfile := files_step (i := i) (hs.still hv).1 (hs.still hv).2
    obtain ⟨hfree, hsign⟩ := hs.div.free (hs.waits hv).div
    refine ⟨⟨?_, ?_, ?_, ?_, fun _ => ?_⟩, (work_next hst).symm ▸ hread⟩ <;> rw [work_next hst]
    · exact hw.regs.trans (hfile false).1.symm
    · rw [← hw.setCond hs hv]
      simp only [State.divCe, Bool.and_eq_true] at hce
      exact hce.2
    · have hreq : x.cpu.divInput i = x.work.request := by
        have hr' : x.cpu.newPc = false := hr
        simp [State.divInput, Work.request, hce, hr', hw.op, hw.a, hw.b]
      have hl := hfree.loaded hr hc (fun hsg => absurd hsg (by simp [hsign]))
      rw [hreq] at hl
      exact ⟨1, .loaded rfl (by rw [← hreq] at hl ⊢; exact hl)⟩
    · exact hw.reg
    · exact (stalled_step hst).2.trans hw.reg
  · have hstr : x.stray = false := by
      by_contra hstr
      rw [h.stray (by simpa using hstr)] at hp
      cases hp
    have horph : x.cpu.div.orphan = false := hstray
    have hb : x.cpu.div.oBusy := by
      by_contra hb
      rw [hs.div.orphan_of_pending hp (by simpa using hb)] at horph
      cases horph
    have hst := opStall_of_div hb
    obtain ⟨hw, hread⟩ := h.div (by simp [Div.State.active, hp]) horph hstr
    obtain ⟨n, hn⟩ := hw.stage
    have hwr : (x.cpu.divInput i).iWr = false := by
      by_contra hwr
      have := hs.fits.free (by simpa using hwr : (x.cpu.divInput i).iWr = true)
      simp [hp] at this
    refine ⟨⟨?_, ?_, ?_, ?_, fun _ => ?_⟩, (work_next hst).symm ▸ hread⟩ <;> rw [work_next hst]
    · rw [hw.regs]
      exact (regset_step (h.alone.still_div hb)).symm
    · exact hw.runs
    · exact ⟨n + 1, hn.next hr hwr⟩
    · exact hw.stays hb
    · exact (stalled_step hst).2.trans (hw.stays hb)

theorem Executing.Kept.next (h : x.Kept) : (x.next i).Kept where
  alone := ⟨h.alone.sound.step, h.alone.divides_step⟩
  stray := h.stray_next
  waits := h.waits_next
  alu := h.alu_next
  div := h.div_next
  mem := h.mem_next
  orphan ho := by
    have hr := h.alone.sound.div.reset_of_orphan (h.alone.sound.fits (i := i)) ho
    simp [Executing.next, step, Div.step, hr]

theorem Executing.kept_of_reachable (h : executing.Reachable x) : x.Kept := by
  refine h.invariant (P := Executing.Kept) (fun y hy => ?_) fun y i hy _ => hy.next
  obtain ⟨hc, hs⟩ := hy
  have ha := alone_of_reachable (System.reachable_init hc)
  refine ⟨ha, fun h => absurd h (by simp [hs]), fun h => absurd h (by simp [hc.opValid]),
    fun h => absurd h ?_, fun h => absurd h ?_, fun h => absurd h ?_,
    fun _ => hc.div.oValid⟩
  · simp [CpuOps.State.active, hc.alu.oValid, hc.alu.rBusy]
  · simp [Div.State.active, Div.State.pending, hc.div.rBusy, hc.div.rSign, hc.div.oValid]
  · simp [hc.memValid, hc.memCyc]

/-- In every run, whatever a unit writes is what the instruction issued last makes of its operands,
under a condition that held, in the register it names; and the registers it has read are still as
it found them. The one exception is a division whose sign is changed when it has been taken away. -/
theorem executes_of_reachable (h : executing.Reachable x) (hu : x.cpu.writing u)
    (hs : u = .div → x.stray = false) :
    x.work.regs = x.cpu.regset ∧ x.work.Reads ∧ x.work.runs ∧
      x.cpu.target u = x.work.held.seen.oDcdR.id ∧ x.work.Yields x.data (x.cpu.value u) u := by
  have hk := Executing.kept_of_reachable h
  cases u with
  | alu =>
    simp only [State.writing, Bool.and_eq_true] at hu
    obtain ⟨hc, hr⟩ := hk.alu (by simp [CpuOps.State.active, hu.1.1.2])
    exact ⟨hc.regs, hr, (hc.wr hu.1.1.1).2.2, hc.reg, hc.working.valid hu.1.1.2⟩
  | div =>
    simp only [State.writing, Bool.and_eq_true] at hu
    have ha : x.cpu.div.active := by simp [Div.State.active, hu.1.1]
    have ho : x.cpu.div.orphan = false := by
      by_contra ho
      rw [hk.orphan (Bool.eq_true_of_not_eq_false ho)] at hu
      simp at hu
    obtain ⟨hd, hr⟩ := hk.div ha ho (hs rfl)
    refine ⟨hd.regs, hr, hd.runs, hd.reg, fun hb => ?_⟩
    obtain ⟨n, hn⟩ := hd.stage
    have hans := hn.answers
    have hclk : n = x.work.request.clocks := by
      have := hans.valid
      rw [hu.1.1] at this
      exact of_decide_eq_true this.symm
    exact hans.quotient hclk hb
  | mem =>
    obtain ⟨hl, hr⟩ := hk.mem (.inl hu)
    exact ⟨hl.regs, hr, hl.runs, hl.reg,
      (hl.valid hu).trans (congrArg (MemOps.readData · _) hl.lanes)⟩

/-- After a reset, `DIVS -1,R0`. -/
def dividing : List Input :=
  [{ idle with iRst := true }, idle, idle, idle, idle, answer true 0x03c3ffff false,
    answer true 0x03c3ffff false, idle, idle]

theorem processor_foldl (is : List Input) :
    processor.Reachable (is.foldl step ZipBones.powerUp.cpu) :=
  (System.reachable_init (M := processor) ZipBones.powerUp_init.cpu).foldl
    (System.admits_of_free (fun _ _ => trivial) _)

/-- `0 / -1`, to its answer. -/
def divided : Executing :=
  (dividing ++ List.replicate 34 idle).foldl Executing.next
    ⟨ZipBones.powerUp.cpu, ZipBones.powerUp.cpu.work, false, 0⟩

theorem executes_divided : divided.cpu.writing .div ∧ divided.work.regs = divided.cpu.regset := by
  have hr : executing.Reachable divided :=
    (System.reachable_init (M := executing) ⟨ZipBones.powerUp_init.cpu, rfl⟩).foldl
      (System.admits_of_free (fun _ _ => trivial) _)
  have hw : divided.cpu.writing .div := by decide +kernel
  exact ⟨hw, (executes_of_reachable hr hw fun _ => by decide +kernel).1⟩

/-- Neither a reset nor a request to clear the cache. -/
structure Input.Calm (i : Input) : Prop where
  reset : i.iRst = false
  clear : i.iClearPfCache = false

/-- The clock after a change of mode: the pipeline is being cleared. -/
structure State.Cut (s : State) : Prop where
  newPc : s.newPc
  gie : s.gie = false
  clear : s.clearIcache = false
  mem : s.mem.oWbCycGbl = false ∧ s.mem.oValid = false
  pc : s.memPcValid = false

/-- And a clock later. -/
structure State.Gone (s : State) : Prop where
  newPc : s.newPc = false
  gie : s.gie = false
  clear : s.clearIcache = false
  writes : s.wrRegCe = false
  div : s.div.rBusy = false ∧ s.div.zeroDivisor = false
  opIllegal : s.opIllegal = false
  pc : s.rAluPcValid = false ∧ s.memPcValid = false

theorem upc_step (hw : s.wrRegCe = false) (ha : s.aluPcValid = false ∨ s.newPc)
    (hm : s.memPcValid = false) : (step s i).upc = s.upc := by
  simp only [step, State.nextUpc, hw, hm]
  grind

theorem State.Alone.cut (h : s.Alone) (hb : s.div.oBusy) (hi : i.Calm)
    (hw : s.wSwitchToInterrupt i) : (step s i).Cut := by
  have hact : s.div.active := by simp [Div.State.active, h.sound.div.pending_of_busy hb]
  have hstill := h.still_div hb
  have hm : s.mem.rWbCycGbl = false := by
    by_contra hm
    rw [(h.sound.loads (by simp [MemOps.State.active, hm])).2.1] at hact
    cases hact
  have hv := (h.divides hact).2.2.2
  have hce : s.memCe i = false := by
    have := h.sound.memCe_waits (i := i)
    grind
  have hl := h.sound.mem.lock
  refine ⟨?_, ?_, ?_, ⟨?_, ?_⟩, ?_⟩
  · simp [step, State.nextNewPc, hw]
  · simp [step, State.nextGie, hw]
  · simp [step, hi.reset, hi.clear, hstill]
  · simp [step, MemOps.step, MemOps.State.oWbCycGbl, hm, hl, hce, State.memInput]
  · simp [step, MemOps.step, MemOps.State.oWbCycGbl, hm, hl]
  · simp [step, hce]

theorem State.Cut.gone (h : s.Cut) (hi : i.Calm) :
    (step s i).Gone ∧ (step s i).div.rSign = s.div.leavesSign ∧ (step s i).upc = s.upc := by
  have hw : s.wrRegCe = false := by simp [State.wrRegCe, h.mem, h.newPc]
  have hn : (step s i).newPc = false := by
    simp [step, State.nextNewPc, State.wSwitchToInterrupt, State.wReleaseFromInterrupt,
      State.wrOwnPc, hi.reset, h.clear, h.gie, hw]
  refine ⟨⟨hn, ?_, ?_, ?_, ⟨?_, ?_⟩, ?_, ⟨?_, ?_⟩⟩, ?_, upc_step hw (.inr h.newPc) h.pc⟩
  · simp [step, State.nextGie, State.wReleaseFromInterrupt, h.gie, hw]
  · simp [step, hi.reset, hi.clear, hw]
  · simp [State.wrRegCe, step, MemOps.step, CpuOps.step, Div.step, State.aluInput, State.divInput,
      h.mem, h.newPc]
  all_goals simp [step, Div.step, State.divInput, State.memCe, Div.State.leavesSign, h.newPc]

theorem State.Gone.next (h : s.Gone) (hi : i.iRst = false) :
    ((step s i).writing .div ↔ s.div.rSign) ∧ (step s i).gie = false ∧ (step s i).upc = s.upc := by
  have hn : (step s i).newPc = false := by
    simp [step, State.nextNewPc, State.wSwitchToInterrupt, State.wReleaseFromInterrupt,
      State.wrOwnPc, hi, h.clear, h.gie, h.writes]
  have hv : (step s i).div.oValid = s.div.rSign := by
    simp [step, Div.step, State.divInput, h.newPc, h.div]
  have ha : (step s i).aluIllegal = false := by simp [step, h.opIllegal]
  refine ⟨by simp [State.writing, hv, hn, ha], ?_, ?_⟩
  · simp [step, State.nextGie, State.wReleaseFromInterrupt, h.gie, h.writes]
  · exact upc_step h.writes (.inl (by simp [State.aluPcValid, h.pc])) h.pc.2

/-- No memory access is issued while the divider is at work. -/
theorem memPcValid_of_reachable (h : processor.Reachable s) (hb : s.div.oBusy) :
    s.memPcValid = false := by
  have hinv : s.Alone ∧ (s.memPcValid → s.div.active = false) := by
    refine h.invariant (P := fun t => t.Alone ∧ (t.memPcValid → t.div.active = false)) ?_ ?_
    · intro t ht
      refine ⟨alone_of_reachable (System.reachable_init ht), fun hm => ?_⟩
      rw [ht.memPcValid] at hm
      cases hm
    · intro t j ht _
      refine ⟨⟨ht.1.sound.step, ht.1.divides_step⟩, fun hm => ?_⟩
      have hce : t.memCe j := by
        simp only [processor, step, Bool.and_eq_true] at hm
        exact hm.2
      obtain ⟨hv, hvm⟩ := ht.1.sound.memCe_waits hce
      have hd := (ht.1.sound.waits hv).div
      have hno := (ht.1.sound.opMem hvm).2.1
      by_contra ha
      rcases ht.1.sound.div.of_active_step (i := t.divInput j) (Bool.eq_true_of_not_eq_false ha)
        with hw | hp
      · have := (ht.1.sound.divCe_waits (i := j) hw).2
        rw [hno] at this
        cases this
      · simp [Div.State.active, hp] at hd
  by_contra hm
  have ha := hinv.2 (Bool.eq_true_of_not_eq_false hm)
  simp [Div.State.active, hinv.1.sound.div.pending_of_busy hb] at ha

/-- A division of the user's that an interrupt or an error takes away is to be done again, since the
user's PC stays where it is; but its register, which is its dividend, is written three clocks later
if and only if the sign of the quotient had still to be changed. -/
theorem restart_iff (h : processor.Reachable s) (hb : s.div.oBusy) {i j k : Input}
    (hi : i.Calm) (hj : j.Calm) (hk : k.iRst = false) (hw : s.wSwitchToInterrupt i) :
    let t := step (step (step s i) j) k
    t.gie = false ∧ t.upc = s.upc ∧
      (t.writing .div ↔ (step s i).div.leavesSign) ∧ (t.writing .div → t.target .div = s.opR) := by
  have ha := alone_of_reachable h
  have hcut := ha.cut hb hi hw
  have hsound : (step s i).Sound := ha.sound.step
  have hupc : (step s i).upc = s.upc :=
    upc_step (ha.still_div hb) (.inl (by simp [State.aluPcValid, hb]))
      (memPcValid_of_reachable h hb)
  obtain ⟨hgone, hsign, hupc'⟩ := hcut.gone hj
  obtain ⟨hwr, hgie, hupc''⟩ := hgone.next hk
  rw [hsign] at hwr
  refine ⟨hgie, hupc''.trans (hupc'.trans hupc), hwr, fun hwrite => ?_⟩
  have hst := opStall_of_div (hsound.div.oBusy_of_leavesSign (hwr.mp hwrite))
  exact (stalled_step (i := j) hst).2.trans (stalled_step (i := i) (opStall_of_div hb)).2

/-- `OR $32,CC`, and the user's `DIVS -1,R0` is under way. -/
def userDivide : State :=
  (toUserLoad.take 15 ++ [answer true 0x03c3ffff false, answer true 0x03c3ffff false, idle, idle,
    idle]).foldl step ZipBones.powerUp.cpu

/-- An interrupt comes, and R0 of the user is lost. -/
theorem restart_userDivide :
    (step (step (step userDivide (answer false 0 true)) idle) idle).writing .div := by
  have hr : processor.Reachable userDivide := processor_foldl _
  have hc : (answer false 0 true).Calm := ⟨rfl, rfl⟩
  exact (restart_iff hr (by decide +kernel) hc (j := idle) ⟨rfl, rfl⟩ (k := idle) rfl
    (by decide +kernel)).2.2.1.mpr (by decide +kernel)

end S6Soc.ZipCpu
