import S6Soc.Units
import S6Soc.ZipBones

/-! Loads on the bus of `busmaster`: which clocks end one, and what it writes. -/
namespace S6Soc.ZipBones
open Clocked
open BusMaster (unmapped)

/-- What the slaves answer in a clock (any of their acknowledgements, the stall of the selected
one, and the data), and the lines from outside. -/
structure Slaves where
  ack : Bool
  stall : Bool
  wbIdata : BitVec 32
  iBtn : Bool
  wInterrupt : Bool

def State.noneSel (s : State) : Bool := s.wbStb && unmapped s.wbAddr

/-- `wb_ack`, `wb_stall`, `wb_err` and `wb_idata`. -/
def State.answered (s : State) (a : Slaves) : Input where
  iBtn := a.iBtn
  iExtInt := a.wInterrupt
  iWbAck := s.wbCyc && (a.ack || s.noneSel)
  iWbStall := !unmapped s.wbAddr && a.stall
  iWbErr := s.noneSel
  iWbData := a.wbIdata

def State.clock (s : State) (a : Slaves) : State := s.next (s.answered a)

/-- The processor on the bus, whose slaves may answer anything at any time. -/
def soc : System State Slaves where
  init := State.Initial
  allowed _ _ := True
  next := State.clock

/-- What the arbiter lets through to the memory unit. -/
def State.toMem (s : State) (a : Slaves) : MemOps.Input :=
  s.cpu.memInput (s.cpuInput (s.answered a))

def State.loading (s : State) : Bool := s.cpu.mem.rWbCycGbl && !s.cpu.mem.oWbWe

/-- A load ends in this clock with a bus error. -/
def State.Fails (s : State) (a : Slaves) : Prop := s.loading ∧ (s.toMem a).iWbErr

/-- A load ends in this clock with an acknowledgement and no error. -/
def State.Succeeds (s : State) (a : Slaves) : Prop :=
  s.loading ∧ (s.toMem a).iWbAck ∧ (s.toMem a).iWbErr = false

/-- A failed load changes no register of either set and no PC or flag, and the load's word goes to
its register in the clock after it ends well, and only then. -/
structure State.Atomic (s : State) (a : Slaves) : Prop where
  failed : s.Fails a → ∀ b, ((s.clock a).clock b).cpu.regset = (s.clock a).cpu.regset ∧
    ((s.clock a).clock b).cpu.upc = (s.clock a).cpu.upc ∧
    ((s.clock a).clock b).cpu.ipc = (s.clock a).cpu.ipc ∧
    ((s.clock a).clock b).cpu.flags = (s.clock a).cpu.flags ∧
    ((s.clock a).clock b).cpu.iflags = (s.clock a).cpu.iflags
  writes : (s.clock a).cpu.mem.oValid ↔ s.Succeeds a
  written : s.Succeeds a → (s.clock a).cpu.wrRegCe ∧
    (s.clock a).cpu.wrRegId = s.cpu.mem.oWreg ∧
    (s.clock a).cpu.wrGpregVl = MemOps.readData s.cpu.mem.rOp a.wbIdata

/-- No load that has the bus asks for a word that no slave has. -/
def State.Mapped (s : State) : Prop :=
  s.loading → s.cpu.rAOwner → unmapped s.cpu.mem.oWbAddr = false

variable {s : State} {a : Slaves}

/-- A request that the bus has taken is for a slave. -/
structure State.Kept (s : State) : Prop where
  sound : s.cpu.Sound
  reset : s.cmdReset → s.cpu.mem.rWbCycGbl = false
  taken : s.cpu.mem.rWbCycGbl → s.cpu.mem.oWbStbGbl = false →
    unmapped s.cpu.mem.oWbAddr = false

/-- Nothing is issued to the memory unit while it is at work. -/
theorem State.Kept.not_issued (h : s.Kept) (hc : s.cpu.mem.rWbCycGbl) :
    (s.toMem a).iStb = false := by
  have ho := (h.sound.loads (by simp [MemOps.State.active, hc])).2.2.2.2
  have hm := h.sound.memCe_waits (i := s.cpuInput (s.answered a))
  simp only [State.toMem, ZipCpu.State.memInput]
  grind

theorem State.Kept.step (h : s.Kept) : (s.clock a).Kept where
  sound := h.sound.step
  reset hr := by cases hr
  taken hc hs := by
    have hk := h.taken
    have hl := h.sound.mem.lock
    have hidle := h.not_issued (a := a)
    simp only [State.clock, State.next, ZipCpu.step, MemOps.step, ZipCpu.State.memInput,
      MemOps.State.oWbCycGbl, State.toMem, State.cpuInput, State.answered, State.noneSel,
      State.wbStb, State.wbAddr] at hc hs hidle ⊢
    grind

theorem kept_of_reachable (h : soc.Reachable s) : s.Kept := by
  refine h.invariant (P := State.Kept) (fun t ht => ?_) fun t b ht _ => ht.step
  exact ⟨ht.cpu.sound, fun _ => ht.cpu.memCyc, fun hc _ => absurd ht.cpu.memCyc (by simp [hc])⟩

/-- The bus reports an error in every clock that asks for a word no slave has, and in no other. -/
theorem toMem_err : (s.toMem a).iWbErr = (s.cpu.rAOwner && s.noneSel) := by
  simp only [State.toMem, ZipCpu.State.memInput, State.cpuInput, State.answered]
  grind

theorem toMem_ack : (s.toMem a).iWbAck = (s.cpu.rAOwner && (s.wbCyc && (a.ack || s.noneSel))) := by
  simp only [State.toMem, ZipCpu.State.memInput, State.cpuInput, State.answered]
  grind

/-- A load's result is there in the clock after its acknowledgement. -/
theorem State.Kept.oValid_clock (h : s.Kept) :
    (s.clock a).cpu.mem.oValid = (s.loading && (s.toMem a).iWbAck) := by
  have hr := h.reset
  have hl := h.sound.mem.lock
  simp only [State.clock, State.next, ZipCpu.step, MemOps.step, State.toMem, ZipCpu.State.memInput,
    State.loading, MemOps.State.oWbCycGbl, State.cpuInput, State.cpuReset, hl] at hr ⊢
  grind

theorem State.Kept.written (h : s.Kept) (hc : s.loading) (ha : (s.toMem a).iWbAck) :
    (s.clock a).cpu.wrRegCe ∧ (s.clock a).cpu.wrRegId = s.cpu.mem.oWreg ∧
      (s.clock a).cpu.wrGpregVl = MemOps.readData s.cpu.mem.rOp a.wbIdata := by
  have hv : (s.clock a).cpu.mem.oValid := by rw [h.oValid_clock, hc, ha]; rfl
  obtain ⟨hce, hid, hvl⟩ := h.step.sound.load_writes hv
  have hb : s.cpu.mem.rWbCycGbl := (Bool.and_eq_true_iff.mp hc).1
  have hi := h.not_issued (a := a) hb
  have hreg : (s.clock a).cpu.mem.oWreg = s.cpu.mem.oWreg := by
    change (if (s.toMem a).iStb then _ else _) = _
    rw [hi]
    rfl
  exact ⟨hce, hid.trans hreg, hvl⟩

/-- Every load that has the bus and asks for a word that no slave has is told of its error, and
of an acknowledgement. -/
theorem State.Kept.told_both (h : s.Kept) (hc : s.loading) (ho : s.cpu.rAOwner)
    (hu : unmapped s.cpu.mem.oWbAddr) : (s.toMem a).iWbErr ∧ (s.toMem a).iWbAck := by
  have hb : s.cpu.mem.rWbCycGbl := (Bool.and_eq_true_iff.mp hc).1
  have hs : s.cpu.mem.oWbStbGbl := by
    by_contra hn
    exact absurd (h.taken hb (Bool.eq_false_of_not_eq_true hn)) (by simp [hu])
  have hnone : s.noneSel := by
    simp [State.noneSel, State.wbStb, State.wbAddr, ho, hs, hu]
  have hcyc : s.wbCyc := by
    simp [State.wbCyc, ZipCpu.State.wbCyc, ho, MemOps.State.oWbCycGbl, hb]
  rw [toMem_err, toMem_ack, ho, hnone, hcyc]
  simp

/-- Every load from an address that no slave has writes what happens to be on the bus. -/
theorem atomic_iff (h : soc.Reachable s) (a : Slaves) : s.Atomic a ↔ s.Mapped := by
  have hk := kept_of_reachable h
  constructor
  · intro ha hc ho
    by_contra hu
    obtain ⟨herr, hack⟩ := hk.told_both (a := a) hc ho (by simpa using hu)
    have hv : (s.clock a).cpu.mem.oValid := by rw [hk.oValid_clock, hc, hack]; rfl
    have hs := ha.writes.mp hv
    rw [hs.2.2] at herr
    cases herr
  · intro hm
    have herr (hc : s.loading) : (s.toMem a).iWbErr = false := by
      rw [toMem_err]
      by_contra hn
      simp only [Bool.not_eq_false, Bool.and_eq_true, State.noneSel, State.wbAddr] at hn
      obtain ⟨ho, -, hu⟩ := hn
      rw [if_pos ho, hm hc ho] at hu
      cases hu
    refine ⟨fun hf => ?_, ?_, fun hs => hk.written hs.1 hs.2.1⟩
    · exact absurd hf.2 (by simp [herr hf.1])
    · rw [hk.oValid_clock, Bool.and_eq_true]
      exact ⟨fun hv => ⟨hv.1, hv.2, herr hv.1⟩, fun hs => ⟨hs.1, hs.2.1⟩⟩

/-- With all registers at zero that have no initial value. -/
def powerUp : State where
  cpu := {
    pf := DblFetch.initial 23 fun _ => 0
    dcd := ⟨false, false, 0, false, IDecode.decode false 0, 0, false⟩
    alu := ⟨false, false, false, false, 0, false, false, false, 0, 0, 0, false, 0, 0, 0, 0, 0⟩
    div := ⟨false, false, false, false, false, 0, false, false, false, 0, 0, false, 0, false⟩
    mem := ⟨false, false, false, false, 0, 0, 0, 0, false, false, 0, 0⟩
    rAOwner := true
    regset := fun _ => 0
    flags := 0
    iflags := 0
    breakEn := false
    stepping := false
    sleep := false
    gie := false
    trap := false
    ubreak := false
    illErrI := false
    illErrU := false
    ibusErrFlag := false
    ubusErrFlag := false
    idivErrFlag := false
    udivErrFlag := false
    ihaltPhase := false
    uhaltPhase := false
    upc := 0
    ipc := 0
    pfPc := 0
    clearIcache := true
    newPc := true
    opAv := 0
    opBv := 0
    rOpF := 0
    opValid := false
    opValidAlu := false
    opValidMem := false
    opValidDiv := false
    opBreak := false
    opIllegal := false
    opWF := false
    opWR := false
    opOpn := 0
    opR := 0
    opGie := false
    opPc := 0
    opPhase := false
    aluWR := false
    aluWF := false
    aluPhase := false
    aluReg := 0
    aluIllegal := false
    rAluPcValid := false
    memPcValid := false }
  cmdReset := true
  cmdHalt := false
  cmdClearPfCache := true
  xButton := false
  rButton := false
  btnReset := false
  watchdog := ⟨false, 0, false⟩

theorem powerUp_init : powerUp.Initial where
  cpu := by
    constructor
    case pf => exact ⟨_, rfl⟩
    all_goals first | rfl | exact ⟨rfl, rfl⟩ | exact ⟨rfl, rfl, rfl⟩ | constructor <;> rfl
  cmdReset := rfl
  cmdHalt := rfl
  cmdClearPfCache := rfl
  xButton := rfl
  rButton := rfl
  btnReset := rfl
  rRunning := rfl
  rValue := rfl
  oInt := rfl

def fetched (iword : BitVec 32) (ack : Bool) : Slaves := ⟨ack, false, iword, false, false⟩

/-- The first instruction of a program that repeats `iword` has been issued, and has the bus. -/
def issued (iword : BitVec 32) : State :=
  ((List.replicate 6 false ++ [true, true, false, false, false, true, true, false]).map
    (fetched iword)).foldl State.clock powerUp

theorem issued_reachable (iword : BitVec 32) : soc.Reachable (issued iword) :=
  (System.reachable_init (M := soc) powerUp_init).foldl
    (System.admits_of_free (fun _ _ => trivial) _)

/-- `LW (0x4000),R0`: the block RAM answers. -/
theorem atomic_iff_mapped : (issued 0x04804000).Succeeds (fetched 5 true) ∧
    (issued 0x04804000).Atomic (fetched 5 true) :=
  ⟨by unfold State.Succeeds; decide +kernel,
    (atomic_iff (issued_reachable _) _).mpr (by unfold State.Mapped; decide +kernel)⟩

/-- `LW (0),R0`: the load fails, and puts what is on the bus in the register. -/
theorem nullLoad_writes : ∃ s a, soc.Reachable s ∧ s.Fails a ∧
    (s.clock a).cpu.regset 0 = 0 ∧ ((s.clock a).clock a).cpu.regset 0 = 5 :=
  ⟨issued 0x04800000, fetched 5 false, issued_reachable _, by unfold State.Fails; decide +kernel,
    by decide +kernel, by decide +kernel⟩

end S6Soc.ZipBones
