import S6Soc.FailedLoads

/-! What an instruction issued in user mode can do to the supervisor: to its registers, PC and
flags, and to the state it is halted in. -/
namespace S6Soc.Div

variable {s : State} {i : Input}

/-- Whatever is under way after a clock in which nothing starts has kept the divider busy. -/
theorem State.Sound.oBusy_of_pending_step (h : s.Sound) (hw : i.iWr = false)
    (hp : (Div.step s i).pending) : s.oBusy := by
  have hb := h.busy
  have hpre := h.preSign
  simp only [State.pending, Div.step] at hp
  grind

theorem pending_of_valid_step (hv : (step s i).oValid) : s.pending := by
  simp only [State.pending, step] at hv ⊢
  grind

theorem not_reset_of_valid_step (hv : (step s i).oValid) : i.iRst = false := by
  by_contra hr
  simp [step, hr] at hv

theorem State.Sound.orphan_of_pending (h : s.Sound) (hp : s.pending) (hb : s.oBusy = false) :
    s.orphan := by
  have := h.busy
  simp only [State.pending, State.orphan] at hp ⊢
  grind

/-- A reset in this clock leaves a sign change behind. -/
def State.leavesSign (s : State) : Bool :=
  if s.preSign then s.rDivisor.getLsbD 62 ^^ s.rDividend.getLsbD 31
  else s.rBusy && s.rSign && !s.zeroDivisor

theorem leavesSign_of_orphan (ho : (step s i).orphan) : s.leavesSign := by
  simp only [State.orphan, step, Bool.and_eq_true] at ho
  exact ho.1.1

theorem State.Sound.oBusy_of_leavesSign (h : s.Sound) (hl : s.leavesSign) : s.oBusy := by
  have hp := h.preSign
  have hb := h.busy
  simp only [State.leavesSign] at hl
  grind

end S6Soc.Div

namespace S6Soc.ZipCpu
open Clocked
open IDecode (cpuCcReg)

/-- In supervisor mode, and asleep. -/
def State.halted (s : State) : Bool := !s.gie && s.sleep

/-- An instruction leaves the operand stage. -/
def State.issues (s : State) (i : Input) : Bool := s.adfCeUnconditional i || s.memCe i

/-- The processor, and whether the instruction issued last was issued in user mode. -/
structure Watched where
  cpu : State
  user : Bool

def Watched.next (w : Watched) (i : Input) : Watched where
  cpu := step w.cpu i
  user := if w.cpu.issues i then w.cpu.gie else w.user

def watch : System Watched Input where
  init w := w.cpu.Initial ∧ w.user = false
  allowed _ _ := True
  next := Watched.next

/-- While an instruction issued in user mode is the last one, the clock leaves the supervisor's
registers, its PC and `break_en` as they are. -/
structure Watched.Spares (w : Watched) (i : Input) : Prop where
  regset : w.user → ∀ r : BitVec 5, r.getLsbD 4 = false →
    (w.next i).cpu.regset r = w.cpu.regset r
  ipc : w.user → i.iRst = false → (w.next i).cpu.ipc = w.cpu.ipc
  breakEn : w.user → i.iRst = false → i.iHalt = false →
    (w.next i).cpu.breakEn = w.cpu.breakEn

/-- If the clock halts the processor, it is a CC register the supervisor writes. -/
def Watched.HaltsItself (w : Watched) (i : Input) : Prop :=
  (w.next i).cpu.halted → w.cpu.halted = false → w.user = false ∧ w.cpu.wrRegCe ∧ w.cpu.wrWriteCc

/-- A word loaded into the user's CC register comes when the supervisor already runs, and has the
bits of the user's mode and of sleep. -/
def State.lateCc (s : State) : Bool :=
  !s.gie && !s.sleep && s.mem.oValid && s.mem.oWreg == BitVec.ofBool true ++ cpuCcReg &&
    s.mem.oResult.getLsbD 5 && s.mem.oResult.getLsbD 4

/-- The register CC or PC of either set. -/
def special (r : BitVec 5) : Bool := r.extractLsb' 1 3 == 7

/-- Where an instruction is, its mode and its register. -/
structure Watched.Kept (w : Watched) : Prop where
  sound : w.cpu.Sound
  phase : w.cpu.dcd.rPhase → w.cpu.dcd.rValid
  decoded : w.cpu.dcd.rValid → w.cpu.newPc = false → w.cpu.dcd.oGie = w.cpu.gie ∧
    (w.cpu.gie → w.cpu.dcd.out.oDcdR.id.getLsbD 4) ∧
    (w.cpu.dcd.out.oDV → w.cpu.dcd.oIllegal = false → special w.cpu.dcd.out.oDcdR.id = false)
  waiting : w.cpu.opValid → w.cpu.newPc = false → w.cpu.opGie = w.cpu.gie ∧
    (w.cpu.gie → w.cpu.opR.getLsbD 4) ∧ (w.cpu.opValidDiv → special w.cpu.opR = false)
  alu : w.user → w.cpu.aluWR ∨ w.cpu.aluWF ∨ w.cpu.alu.active →
    w.cpu.opGie ∧ w.cpu.opR.getLsbD 4 ∧ w.cpu.aluReg.getLsbD 4
  aluMode : w.user → w.cpu.alu.active → w.cpu.newPc = false → w.cpu.gie
  pending : w.user → w.cpu.div.pending → w.cpu.opR.getLsbD 4 ∧ special w.cpu.opR = false
  divided : w.user → w.cpu.div.oValid →
    w.cpu.aluReg.getLsbD 4 ∧ special w.cpu.aluReg = false
  mem : w.user → w.cpu.mem.active → w.cpu.opGie ∧ w.cpu.mem.oWreg.getLsbD 4
  pcs : w.user → w.cpu.memPcValid ∨ w.cpu.rAluPcValid → w.cpu.opGie

variable {w : Watched} {s : State} {i : Input}

theorem decode_getLsbD (iword : BitVec 32) : (IDecode.decode true iword).oDcdR.id.getLsbD 4 := by
  change (BitVec.ofBool (IDecode.regSet true iword 18) ++ iword.extractLsb' 27 4).getLsbD 4 = true
  rw [BitVec.getLsbD_append]
  simp [IDecode.regSet]

theorem decode_special {g : Bool} {iword : BitVec 32} (hd : (IDecode.decode g iword).oDV)
    (hi : IDecode.illegal iword = false) : special (IDecode.decode g iword).oDcdR.id = false := by
  simp only [IDecode.illegal, Bool.or_eq_false_iff, Bool.and_eq_false_iff] at hi
  simp only [IDecode.decode] at hd
  have hs : IDecode.special iword = false := by grind
  rw [← hs]
  change (BitVec.extractLsb' 1 3 (BitVec.ofBool _ ++ iword.extractLsb' 27 4) == 7) =
    (iword.extractLsb' 28 3 == 7)
  congr 1
  ext k hk
  simp only [BitVec.getElem_extractLsb', BitVec.getLsbD_append, BitVec.getLsbD_extractLsb']
  have hk' : 1 + k < 4 := by omega
  simp [hk', ← Nat.add_assoc]

/-- A stalled operand stage keeps what it holds. -/
theorem stalled_step (hs : s.opStall) : (step s i).opGie = s.opGie ∧ (step s i).opR = s.opR := by
  simp [step, State.opChangeDataCe, hs]

theorem opStall_of_opValid (h : s.opValid) : s.opStall := by
  simp [State.opStall, h]

theorem opStall_of_div (h : s.div.oBusy) : s.opStall := by
  simp [State.opStall, h]

theorem opStall_of_alu (h : s.alu.rBusy) : s.opStall := by
  simp [State.opStall, CpuOps.State.oBusy, h]

theorem opStall_of_mem (h : s.mem.rWbCycGbl) : s.opStall := by
  simp [State.opStall, MemOps.State.oBusy, h]

/-- What is issued waited in the operand stage, and the pipeline is not being cleared. -/
theorem waits_of_issues (h : s.Sound) (hi : s.issues i) : s.opValid ∧ s.newPc = false := by
  have hm := h.memCe_waits (i := i)
  simp only [State.issues, State.adfCeUnconditional, State.memCe] at hi hm
  grind

theorem Watched.Kept.issued (h : w.Kept) (hi : w.cpu.issues i) :
    w.cpu.opGie = w.cpu.gie ∧ (w.cpu.gie → w.cpu.opR.getLsbD 4) ∧
      (w.cpu.opValidDiv → special w.cpu.opR = false) ∧ w.cpu.opStall ∧ w.cpu.newPc = false := by
  obtain ⟨hv, hn⟩ := waits_of_issues h.sound hi
  obtain ⟨hg, hr, hd⟩ := h.waiting hv hn
  exact ⟨hg, hr, hd, opStall_of_opValid hv, hn⟩

/-- The mode changes only in a clock that clears the pipeline. -/
theorem gie_step (hn : (step s i).newPc = false) : (step s i).gie = s.gie := by
  simp only [step, State.nextNewPc, State.nextGie] at hn ⊢
  grind

/-- If the instruction issued last is the user's, it was so before the clock or is issued in it,
and then the operand stage holds a register of the user's. -/
theorem Watched.Kept.user_next (h : w.Kept) (hu : (w.next i).user) :
    w.cpu.issues i ∧ w.cpu.gie ∧ w.cpu.opGie ∧ w.cpu.opR.getLsbD 4 ∧ w.cpu.opStall ∧
        w.cpu.newPc = false ∨
      w.cpu.issues i = false ∧ w.user := by
  cases hi : w.cpu.issues i with
  | true =>
    have hg : w.cpu.gie := by simpa [Watched.next, hi] using hu
    obtain ⟨ho, hr, -, hs, hn⟩ := h.issued hi
    exact Or.inl ⟨rfl, hg, ho.trans hg, hr hg, hs, hn⟩
  | false =>
    exact Or.inr ⟨rfl, by simpa [Watched.next, hi] using hu⟩

theorem Watched.Kept.phase_next (h : w.Kept) (hp : (w.next i).cpu.dcd.rPhase) :
    (w.next i).cpu.dcd.rValid := by
  have hv := h.phase
  simp only [Watched.next, step, IDecode.step, State.dcdInput, State.dcdCe] at hp ⊢
  grind

theorem Watched.Kept.decoded_next (h : w.Kept) (hv : (w.next i).cpu.dcd.rValid)
    (hn : (w.next i).cpu.newPc = false) : (w.next i).cpu.dcd.oGie = (w.next i).cpu.gie ∧
      ((w.next i).cpu.gie → (w.next i).cpu.dcd.out.oDcdR.id.getLsbD 4) ∧
      ((w.next i).cpu.dcd.out.oDV → (w.next i).cpu.dcd.oIllegal = false →
        special (w.next i).cpu.dcd.out.oDcdR.id = false) := by
  have hp := h.phase
  have hd := h.decoded
  have hg : (w.next i).cpu.gie = w.cpu.gie := gie_step hn
  rw [hg]
  have hr := decode_getLsbD (w.cpu.dcd.iword w.cpu.dcdInput)
  have hs := @decode_special w.cpu.gie (w.cpu.dcd.iword w.cpu.dcdInput)
  simp only [Watched.next, step, IDecode.step, State.dcdInput] at hv hr hs ⊢
  grind

theorem Watched.Kept.waiting_next (h : w.Kept) (hv : (w.next i).cpu.opValid)
    (hn : (w.next i).cpu.newPc = false) : (w.next i).cpu.opGie = (w.next i).cpu.gie ∧
      ((w.next i).cpu.gie → (w.next i).cpu.opR.getLsbD 4) ∧
      ((w.next i).cpu.opValidDiv → special (w.next i).cpu.opR = false) := by
  have hd := h.decoded
  have hw := h.waiting
  have hg : (w.next i).cpu.gie = w.cpu.gie := gie_step hn
  rw [hg]
  have hs := opStall_of_opValid (s := w.cpu)
  simp only [Watched.next, step, State.nextOpValid, State.opCe, State.opChangeDataCe] at hv ⊢
  grind

theorem Watched.Kept.alu_next (h : w.Kept) (hu : (w.next i).user)
    (ha : (w.next i).cpu.aluWR ∨ (w.next i).cpu.aluWF ∨ (w.next i).cpu.alu.active) :
    (w.next i).cpu.opGie ∧ (w.next i).cpu.opR.getLsbD 4 ∧ (w.next i).cpu.aluReg.getLsbD 4 := by
  have hreg : (w.next i).cpu.aluReg = w.cpu.opR := rfl
  rw [hreg]
  rcases h.user_next hu with ⟨-, -, hg, hr, hs, -⟩ | ⟨hi, hu⟩
  · obtain ⟨h₁, h₂⟩ := stalled_step (i := i) hs
    exact ⟨h₁.trans hg, by rw [show (w.next i).cpu.opR = w.cpu.opR from h₂]; exact hr, hr⟩
  · have hb : w.cpu.alu.rBusy ∧ (w.cpu.aluWR ∨ w.cpu.aluWF ∨ w.cpu.alu.active) := by
      have hc : w.cpu.aluCe i = false := by
        have := h.sound.issued (i := i)
        simp only [State.issues] at hi
        grind
      have hact := h.sound.alu.of_active_step (i := w.cpu.aluInput i)
      simp only [Watched.next, step, hc, CpuOps.State.oBusy, State.aluInput] at ha hact ⊢
      simp only [CpuOps.State.active]
      grind
    obtain ⟨h₁, h₂⟩ := stalled_step (i := i) (opStall_of_alu hb.1)
    obtain ⟨hg, hr, -⟩ := h.alu hu hb.2
    exact ⟨h₁.trans hg, by rw [show (w.next i).cpu.opR = w.cpu.opR from h₂]; exact hr, hr⟩

theorem Watched.Kept.aluMode_next (h : w.Kept) (hu : (w.next i).user)
    (ha : (w.next i).cpu.alu.active) (hn : (w.next i).cpu.newPc = false) :
    (w.next i).cpu.gie := by
  rw [show (w.next i).cpu.gie = w.cpu.gie from gie_step hn]
  rcases h.user_next hu with ⟨-, hg, -⟩ | ⟨hi, hu⟩
  · exact hg
  · have hc : w.cpu.aluCe i = false := by
      have := h.sound.issued (i := i)
      simp only [State.issues] at hi
      grind
    have hact := h.sound.alu.of_active_step (i := w.cpu.aluInput i) ha
    have hr : w.cpu.newPc = false := by
      by_contra hr
      exact absurd ha (by simp [Watched.next, step, CpuOps.not_active_reset
        (i := w.cpu.aluInput i) (by simpa [State.aluInput] using hr)])
    refine h.aluMode hu ?_ hr
    simp only [State.aluInput, hc] at hact
    simp only [CpuOps.State.active]
    grind

/-- What is issued finds nothing under way. -/
theorem Watched.Kept.drained (h : w.Kept) (hi : w.cpu.issues i) : w.cpu.Drained :=
  h.sound.waits (waits_of_issues h.sound hi).1

theorem Watched.Kept.pending_next (h : w.Kept) (hu : (w.next i).user)
    (hp : (w.next i).cpu.div.pending) :
    (w.next i).cpu.opR.getLsbD 4 ∧ special (w.next i).cpu.opR = false := by
  rcases h.user_next hu with ⟨hi, -, -, hr, hs, -⟩ | ⟨hi, hu⟩
  · have hw : w.cpu.divCe i := by
      have hact := h.sound.div.of_active_step (i := w.cpu.divInput i) (by
        simp only [Div.State.active, Bool.or_eq_true]
        exact Or.inl hp)
      have hd := (h.drained hi).div
      simp only [Div.State.active, Bool.or_eq_false_iff] at hd
      rcases hact with hact | hact
      · exact hact
      · exact absurd hact (by simp [hd.1])
    rw [show (w.next i).cpu.opR = w.cpu.opR from (stalled_step hs).2]
    exact ⟨hr, (h.issued hi).2.2.1 (h.sound.divCe_waits hw).2⟩
  · have hw : w.cpu.divCe i = false := by
      have := h.sound.issued (i := i)
      simp only [State.issues] at hi
      grind
    have hb : w.cpu.div.oBusy := h.sound.div.oBusy_of_pending_step (i := w.cpu.divInput i) hw hp
    rw [show (w.next i).cpu.opR = w.cpu.opR from (stalled_step (opStall_of_div hb)).2]
    exact h.pending hu (h.sound.div.pending_of_busy hb)

theorem Watched.Kept.divided_next (h : w.Kept) (hu : (w.next i).user)
    (hv : (w.next i).cpu.div.oValid) :
    (w.next i).cpu.aluReg.getLsbD 4 ∧ special (w.next i).cpu.aluReg = false := by
  have hp : w.cpu.div.pending := Div.pending_of_valid_step (i := w.cpu.divInput i) hv
  rcases h.user_next hu with ⟨hi, -⟩ | ⟨-, hu⟩
  · have hd := (h.drained hi).div
    simp only [Div.State.active, Bool.or_eq_false_iff] at hd
    exact absurd hp (by simp [hd.1])
  · exact h.pending hu hp

theorem Watched.Kept.mem_next (h : w.Kept) (hu : (w.next i).user)
    (ha : (w.next i).cpu.mem.active) :
    (w.next i).cpu.opGie ∧ (w.next i).cpu.mem.oWreg.getLsbD 4 := by
  have hact := h.sound.mem.of_active_step (i := w.cpu.memInput i) ha
  have hreg : (w.next i).cpu.mem.oWreg =
      if (w.cpu.memInput i).iStb then w.cpu.opR else w.cpu.mem.oWreg := rfl
  rcases h.user_next hu with ⟨hi, -, hg, hr, hs, -⟩ | ⟨hi, hu⟩
  · have hst : (w.cpu.memInput i).iStb := by
      have hd := (h.drained hi).mem
      simp only [MemOps.State.active, Bool.or_eq_false_iff] at hd
      rcases hact with hact | hact
      · exact hact
      · exact absurd hact (by simp [hd.1.1])
    rw [hreg, if_pos hst]
    exact ⟨(stalled_step hs).1.trans hg, hr⟩
  · have hst : (w.cpu.memInput i).iStb = false := by
      simp only [State.issues, Bool.or_eq_false_iff] at hi
      simp [State.memInput, hi.2]
    have hc : w.cpu.mem.rWbCycGbl := hact.resolve_left (by simp [hst])
    obtain ⟨hg, hr⟩ := h.mem hu (by simp [MemOps.State.active, hc])
    rw [hreg, hst]
    exact ⟨(stalled_step (opStall_of_mem hc)).1.trans hg, hr⟩

theorem Watched.Kept.pcs_next (h : w.Kept) (hu : (w.next i).user)
    (hp : (w.next i).cpu.memPcValid ∨ (w.next i).cpu.rAluPcValid) : (w.next i).cpu.opGie := by
  rcases h.user_next hu with ⟨-, -, hg, -, hs, -⟩ | ⟨hi, hu⟩
  · exact (stalled_step hs).1.trans hg
  · simp only [State.issues, Bool.or_eq_false_iff] at hi
    have hb : w.cpu.rAluPcValid ∧ w.cpu.opStall := by
      have hstall := opStall_of_div (s := w.cpu)
      have hstall' := opStall_of_alu (s := w.cpu)
      simp only [Watched.next, step, hi, CpuOps.State.oBusy] at hp
      grind
    exact (stalled_step hb.2).1.trans (h.pcs hu (Or.inr hb.1))

theorem Watched.Kept.next (h : w.Kept) : (w.next i).Kept where
  sound := h.sound.step
  phase := h.phase_next
  decoded := h.decoded_next
  waiting := h.waiting_next
  alu := h.alu_next
  aluMode := h.aluMode_next
  pending := h.pending_next
  divided := h.divided_next
  mem := h.mem_next
  pcs := h.pcs_next

theorem kept_of_reachable (h : watch.Reachable w) : w.Kept := by
  refine h.invariant (P := Watched.Kept) (fun v hv => ?_) fun v i hv _ => hv.next
  obtain ⟨hc, hu⟩ := hv
  have hno (p : Prop) (h : v.user = true) : p := absurd h (by simp [hu])
  exact ⟨hc.sound, fun hp => absurd hp (by simp [hc.dcd.rPhase]),
    fun _ hn => absurd hc.newPc (by simp [hn]), fun hv => absurd hv (by simp [hc.opValid]),
    fun h => hno _ h, fun h => hno _ h, fun h => hno _ h, fun h => hno _ h, fun h => hno _ h,
    fun h => hno _ h⟩

theorem not_cc_of_special {r : BitVec 5} (h : special r = false) :
    (r.setWidth 4 == cpuCcReg) = false := by
  revert r
  decide

theorem not_scc_of_user (h : s.wrRegId.getLsbD 4) : s.wrWriteScc = false := by
  rw [State.wrWriteScc, beq_eq_false_iff_ne]
  intro he
  rw [he] at h
  exact absurd h (by decide)

theorem userCc_of_cc {r : BitVec 5} (h : r.getLsbD 4) (hc : r.setWidth 4 == cpuCcReg) :
    r = BitVec.ofBool true ++ cpuCcReg := by
  revert r
  decide

/-- What an instruction of the user's writes is a register of the user's. -/
theorem Watched.Kept.wrRegId (h : w.Kept) (hu : w.user) (hw : w.cpu.wrRegCe) :
    w.cpu.wrRegId.getLsbD 4 := by
  cases hm : w.cpu.mem.oValid with
  | true =>
    rw [(h.sound.load_writes hm).2.1]
    exact (h.mem hu (by simp [MemOps.State.active, hm])).2
  | false =>
    simp only [State.wrRegCe, hm, Bool.false_or, Bool.and_eq_true, Bool.or_eq_true] at hw
    rcases hw.2 with ⟨hr, hv⟩ | hv
    · rw [State.wrRegId, hr]
      exact (h.alu hu (Or.inl hr)).2.2
    · rw [State.wrRegId, hv, Bool.or_true]
      exact (h.divided hu hv).1

/-- It writes CC only while the user runs, or with a word from memory. -/
theorem Watched.Kept.writes_cc (h : w.Kept) (hu : w.user) (hw : w.cpu.wrRegCe)
    (hc : w.cpu.wrWriteCc) : w.cpu.opGie ∧ (w.cpu.gie ∨ w.cpu.mem.oValid) := by
  cases hm : w.cpu.mem.oValid with
  | true => exact ⟨(h.mem hu (by simp [MemOps.State.active, hm])).1, Or.inr rfl⟩
  | false =>
    simp only [State.wrRegCe, hm, Bool.false_or, Bool.and_eq_true, Bool.or_eq_true] at hw
    rcases hw.2 with ⟨hr, hv⟩ | hv
    · have ha : w.cpu.alu.active := by simp [CpuOps.State.active, hv]
      exact ⟨(h.alu hu (Or.inl hr)).1, Or.inl (h.aluMode hu ha (by simpa using hw.1.1))⟩
    · rw [State.wrWriteCc, State.wrRegId, hv, Bool.or_true, if_pos rfl,
        not_cc_of_special (h.divided hu hv).2] at hc
      cases hc

/-- In every run, while an instruction issued in user mode is the last one, no register of the
supervisor's changes, nor its PC, nor what stops at a break. -/
theorem spares_of_reachable (h : watch.Reachable w) (i : Input) : w.Spares i := by
  have hk := kept_of_reachable h
  constructor
  · intro hu r hr
    change (if w.cpu.wrRegCe then _ else _ : BitVec 5 → BitVec 32) r = _
    split_ifs with hw
    · rw [Function.update_of_ne]
      rintro rfl
      rw [hk.wrRegId hu hw] at hr
      cases hr
    · rfl
  · intro hu hi
    have hw := hk.wrRegId hu
    have hp := hk.pcs hu
    simp only [Watched.next, step, State.nextIpc, State.aluGie, State.aluPcValid, hi]
    grind
  · intro hu hr hh
    have hw := hk.wrRegId hu
    have hs : w.cpu.wrRegCe → w.cpu.wrWriteScc = false := fun hc => not_scc_of_user (hw hc)
    simp only [Watched.next, step, hr, hh]
    grind

/-- What the bus answers in a clock, and an interrupt. -/
def answer (ack : Bool) (word : BitVec 32) (interrupt : Bool) : Input where
  iRst := false
  iInterrupt := interrupt
  iHalt := false
  iClearPfCache := false
  iWbAck := ack
  iWbStall := false
  iWbErr := false
  iWbData := word

def idle : Input := answer false 0 false

/-- After a reset `OR $32,CC` takes the processor to the user's `LW (0x4000),CC`. -/
def toUserLoad : List Input :=
  [{ idle with iRst := true }, idle, idle, idle, idle, idle, answer true 0x70c00020 false,
    answer true 0x70c00020 false, idle, idle, idle, answer true 0x70c00020 false,
    answer true 0x70c00020 false, idle, idle, answer true 0x74804000 false,
    answer true 0x74804000 false, idle, idle]

/-- The load has been issued. -/
def userLoad : Watched := toUserLoad.foldl Watched.next ⟨ZipBones.powerUp.cpu, false⟩

theorem userLoad_reachable : watch.Reachable userLoad :=
  (System.reachable_init (M := watch) ⟨ZipBones.powerUp_init.cpu, rfl⟩).foldl
    (System.admits_of_free (fun _ _ => trivial) _)

theorem spares_userLoad : userLoad.user ∧ userLoad.Spares idle :=
  ⟨by decide +kernel, spares_of_reachable userLoad_reachable idle⟩

/-- The processor halts at another's word in one clock only: when a load of the user's into CC
comes late, with both bits set. -/
theorem haltsItself_iff (h : watch.Reachable w) (i : Input) :
    w.HaltsItself i ↔ ¬ (w.user ∧ w.cpu.lateCc ∧ i.iRst = false) := by
  have hk := kept_of_reachable h
  constructor
  · rintro hh ⟨hu, hl, hr⟩
    simp only [State.lateCc, Bool.and_eq_true, Bool.not_eq_true', beq_iff_eq] at hl
    obtain ⟨⟨⟨⟨⟨hg, hs⟩, hv⟩, hid⟩, h₅⟩, h₄⟩ := hl
    obtain ⟨hw, hreg, -⟩ := hk.sound.load_writes hv
    rw [hid] at hreg
    have ho := (hk.mem hu (by simp [MemOps.State.active, hv])).1
    have hcc : w.cpu.wrWriteCc := by rw [State.wrWriteCc, hreg]; decide
    have hscc : w.cpu.wrWriteScc = false := by rw [State.wrWriteScc, hreg]; decide
    have hvl : w.cpu.wrSpregVl = w.cpu.mem.oResult := by rw [State.wrSpregVl, if_pos hv]
    have hgie : w.cpu.wrGie := by rw [State.wrGie, hvl]; exact h₅
    have hsleep : w.cpu.wrSleep := by rw [State.wrSleep, hvl]; exact h₄
    have hsw : w.cpu.wSwitchToInterrupt i = false := by rw [State.wSwitchToInterrupt, hg]; rfl
    have hrel : w.cpu.wReleaseFromInterrupt i = false := by
      rw [State.wReleaseFromInterrupt, hscc, Bool.and_false, Bool.and_false]
    have hn : (w.next i).cpu.halted := by
      simp [State.halted, Watched.next, step, State.nextGie, State.nextSleep, State.aluGie, hr, hsw,
        hrel, hw, hcc, ho, hgie, hsleep, hg]
    obtain ⟨hu', -⟩ := hh hn (by simp [State.halted, hs])
    rw [hu] at hu'
    cases hu'
  · intro hl hn hs
    simp only [State.halted, Watched.next, step, Bool.and_eq_true, Bool.not_eq_true'] at hn
    obtain ⟨hng, hns⟩ := hn
    have hr : i.iRst = false ∧ w.cpu.wSwitchToInterrupt i = false := by
      simp only [State.nextSleep] at hns
      grind
    have hg : w.cpu.gie = false := by
      simp only [State.nextGie, hr] at hng
      grind
    have hsl : w.cpu.sleep = false := by simpa [State.halted, hg] using hs
    have hw : w.cpu.wrRegCe ∧ w.cpu.wrWriteCc ∧
        (w.cpu.aluGie = false ∨ w.cpu.wrGie ∧ w.cpu.wrSleep) := by
      simp only [State.nextSleep, hr, hsl] at hns
      grind
    obtain ⟨hce, hcc, hset⟩ := hw
    refine ⟨Bool.eq_false_of_not_eq_true fun hu => ?_, hce, hcc⟩
    obtain ⟨ho, hm⟩ := hk.writes_cc hu hce hcc
    have hv : w.cpu.mem.oValid := hm.resolve_left (by simp [hg])
    obtain ⟨-, hreg, -⟩ := hk.sound.load_writes hv
    have hid : w.cpu.mem.oWreg = BitVec.ofBool true ++ cpuCcReg := by
      rw [← hreg]
      exact userCc_of_cc (hk.wrRegId hu hce) hcc
    have hvl : w.cpu.wrSpregVl = w.cpu.mem.oResult := by rw [State.wrSpregVl, if_pos hv]
    obtain ⟨h₅, h₄⟩ := hset.resolve_left (by simp [State.aluGie, ho])
    rw [State.wrGie, hvl] at h₅
    rw [State.wrSleep, hvl] at h₄
    exact hl ⟨hu, by simp [State.lateCc, hg, hsl, hv, hid, h₅, h₄], hr.1⟩

/-- An interrupt comes before the load's word does. -/
def lateLoad : Watched :=
  [answer false 0 true, idle, idle, idle, idle, answer true 0x30 false].foldl Watched.next userLoad

/-- The user halts the processor. -/
theorem not_haltsItself_lateLoad : ¬ lateLoad.HaltsItself idle := by
  have hr : watch.Reachable lateLoad :=
    userLoad_reachable.foldl (System.admits_of_free (fun _ _ => trivial) _)
  rw [haltsItself_iff hr]
  exact not_not_intro (by decide +kernel)

/-- A change of mode takes away a divide of the user's that has yet to change a sign, while the
decoder holds nothing. -/
def State.lateSign (s : State) (i : Input) : Bool :=
  s.newPc && !s.gie && s.opGie && !s.dcd.rValid && s.div.leavesSign && !s.clearIcache && !i.iRst

/-- The mode of a divide, up to the clocks after it is taken away. -/
structure Watched.Signed (w : Watched) : Prop where
  kept : w.Kept
  dividing : w.user → w.cpu.div.oBusy → w.cpu.opGie ∧ (w.cpu.newPc = false → w.cpu.gie) ∧
    (w.cpu.dcd.rValid → w.cpu.dcd.oGie)
  orphan : w.user → w.cpu.div.orphan → w.cpu.newPc = false → w.cpu.opGie ∧ w.cpu.dcd.oGie
  divided : w.user → w.cpu.div.oValid → w.cpu.opGie

/-- What the decoder holds after a clock in user mode is the user's. -/
theorem Watched.Kept.behind_next (h : w.Kept) (hg : w.cpu.gie) (hn : w.cpu.newPc = false) :
    (w.next i).cpu.dcd.oGie := by
  have hp := h.phase
  have hd := h.decoded
  simp only [Watched.next, step, IDecode.step, State.dcdInput, State.dcdCe]
  grind

theorem Watched.Signed.dividing_next (h : w.Signed) (hu : (w.next i).user)
    (hb : (w.next i).cpu.div.oBusy) : (w.next i).cpu.opGie ∧
      ((w.next i).cpu.newPc = false → (w.next i).cpu.gie) ∧
      ((w.next i).cpu.dcd.rValid → (w.next i).cpu.dcd.oGie) := by
  have hold : w.cpu.opGie ∧ w.cpu.gie ∧ w.cpu.opStall ∧ w.cpu.newPc = false := by
    rcases h.kept.user_next hu with ⟨-, hg, ho, -, hs, hn⟩ | ⟨hi, hu⟩
    · exact ⟨ho, hg, hs, hn⟩
    · have hw : w.cpu.divCe i = false := by
        have := h.kept.sound.issued (i := i)
        simp only [State.issues] at hi
        grind
      have hb' : w.cpu.div.oBusy ∧ w.cpu.newPc = false := by
        simp only [Watched.next, step, Div.step, State.divInput, hw] at hb
        grind
      obtain ⟨ho, hg, -⟩ := h.dividing hu hb'.1
      exact ⟨ho, hg hb'.2, opStall_of_div hb'.1, hb'.2⟩
  obtain ⟨ho, hg, hs, hn⟩ := hold
  refine ⟨(stalled_step hs).1.trans ho, fun hn' => ?_, fun _ => h.kept.behind_next hg hn⟩
  exact (gie_step hn').trans hg

theorem Watched.Signed.orphan_next (h : w.Signed) (hl : w.cpu.lateSign i = false)
    (hu : (w.next i).user) (ho : (w.next i).cpu.div.orphan) (hn : (w.next i).cpu.newPc = false) :
    (w.next i).cpu.opGie ∧ (w.next i).cpu.dcd.oGie := by
  have hr : w.cpu.newPc := h.kept.sound.div.reset_of_orphan h.kept.sound.fits ho
  have hs : w.cpu.div.leavesSign := Div.leavesSign_of_orphan ho
  have hb := h.kept.sound.div.oBusy_of_leavesSign hs
  rcases h.kept.user_next hu with ⟨-, -, -, -, -, hn'⟩ | ⟨-, hu⟩
  · exact absurd hr (by simp [hn'])
  obtain ⟨hg, -, hd⟩ := h.dividing hu hb
  refine ⟨(stalled_step (opStall_of_div hb)).1.trans hg, ?_⟩
  have hp := h.kept.phase
  have hstall := opStall_of_div hb
  have hclear : w.cpu.clearIcache = false ∧ i.iRst = false := by
    simp only [Watched.next, step, State.nextNewPc] at hn
    grind
  simp only [State.lateSign, hr, hg, hs, hclear] at hl
  simp only [Watched.next, step, IDecode.step, State.dcdInput, State.dcdCe, State.dcdStalled]
  grind

theorem Watched.Signed.divided_next (h : w.Signed) (hu : (w.next i).user)
    (hv : (w.next i).cpu.div.oValid) : (w.next i).cpu.opGie := by
  have hp : w.cpu.div.pending := Div.pending_of_valid_step (i := w.cpu.divInput i) hv
  rcases h.kept.user_next hu with ⟨hi, -⟩ | ⟨-, hu⟩
  · have hd := (h.kept.drained hi).div
    simp only [Div.State.active, Bool.or_eq_false_iff] at hd
    exact absurd hp (by simp [hd.1])
  cases hb : w.cpu.div.oBusy with
  | true => exact (stalled_step (opStall_of_div hb)).1.trans (h.dividing hu hb).1
  | false =>
    have hn : w.cpu.newPc = false := Div.not_reset_of_valid_step (i := w.cpu.divInput i) hv
    obtain ⟨hg, hd⟩ := h.orphan hu (h.kept.sound.div.orphan_of_pending hp hb) hn
    change (if w.cpu.opChangeDataCe then w.cpu.dcd.oGie else w.cpu.opGie) = true
    rw [hg, hd, ite_self]

theorem Watched.Signed.next (h : w.Signed) (hl : w.cpu.lateSign i = false) : (w.next i).Signed where
  kept := h.kept.next
  dividing := h.dividing_next
  orphan := h.orphan_next hl
  divided := h.divided_next

/-- No sign change comes late. -/
def inTime : System Watched Input := watch.restrict fun w i => w.cpu.lateSign i = false

instance Watched.decidableAllowed (w : Watched) (i : Input) : Decidable (inTime.allowed w i) :=
  inferInstanceAs (Decidable (True ∧ w.cpu.lateSign i = false))

/-- In every run in which no sign change comes late, the flags of the supervisor stay as they are
while an instruction issued in user mode is the last one. -/
theorem iflags_of_reachable (h : inTime.Reachable w) (hu : w.user) (i : Input) :
    (w.next i).cpu.iflags = w.cpu.iflags := by
  have hs : w.Signed := by
    refine h.invariant (P := Watched.Signed) (fun v hv => ?_) fun v j hv hj => hv.next hj.2
    have hno (p : Prop) (h : v.user = true) : p := absurd h (by simp [hv.2])
    exact ⟨kept_of_reachable (System.reachable_init hv), fun h => hno _ h, fun h => hno _ h,
      fun h => hno _ h⟩
  have hw := hs.kept.wrRegId hu
  have hscc : w.cpu.wrRegCe → w.cpu.wrWriteScc = false := fun hc => not_scc_of_user (hw hc)
  have hf : w.cpu.wrFlagsCe → w.cpu.opGie := by
    intro hf
    simp only [State.wrFlagsCe, Bool.and_eq_true, Bool.or_eq_true] at hf
    rcases hf.1.1 with hf | hf
    · exact (hs.kept.alu hu (Or.inr (Or.inl hf))).1
    · exact hs.divided hu hf
  simp only [Watched.next, step, State.aluGie]
  grind

theorem iflags_userLoad : (userLoad.next idle).cpu.iflags = userLoad.cpu.iflags := by
  have ha : inTime.Admits ⟨ZipBones.powerUp.cpu, false⟩ toUserLoad := by decide +kernel
  have hr : inTime.Reachable userLoad :=
    (System.reachable_init (M := inTime) ⟨ZipBones.powerUp_init.cpu, rfl⟩).foldl ha
  exact iflags_of_reachable hr (by decide +kernel) idle

end S6Soc.ZipCpu
