import S6Soc.Compressed
import S6Soc.DblFetchStream
import S6Soc.UserMode

/-! What the processor issues: from the program counter it was last sent to, the instructions of
the program in order, each once, compressed or not. -/
namespace S6Soc.ZipCpu
open Clocked
open IDecode (Issue instructions)
open DblFetch (Stream acked program taken)

/-- The processor; what its prefetch has asked for and handed over; and what has been issued since
the processor was last sent to a program counter, `origin`, in the mode it had then. -/
structure Issuing where
  cpu : State
  pending : List (BitVec 23)
  cleared : Bool
  origin : Option (BitVec 23)
  handed : List (BitVec 23 × BitVec 32)
  mode : Bool
  issued : List Issue

def Issuing.fetch (x : Issuing) : Stream 23 := ⟨x.cpu.pf, x.pending, x.cleared, x.origin, x.handed⟩

def Issuing.next (x : Issuing) (i : Input) : Issuing where
  cpu := step x.cpu i
  pending := (x.fetch.next (x.cpu.pfInput i)).pending
  cleared := (x.fetch.next (x.cpu.pfInput i)).cleared
  origin := (x.fetch.next (x.cpu.pfInput i)).origin
  handed := (x.fetch.next (x.cpu.pfInput i)).handed
  mode := if x.cpu.newPc then x.cpu.gie else x.mode
  issued :=
    if i.iRst || x.cpu.clearIcache || x.cpu.newPc then []
    else if x.cpu.opCe && x.cpu.dcd.rValid then x.issued ++ [x.cpu.dcd.held]
    else x.issued

/-- The slaves answer the prefetch in order, without errors, with the words of `mem`. -/
def issuing (mem : BitVec 23 → BitVec 32) : System Issuing Input where
  init x := x.cpu.Initial ∧ x.pending = [] ∧ x.cleared = false ∧ x.origin = none ∧ x.handed = []
  allowed x i := (x.cpu.pfInput i).iWbErr = false ∧
    (acked x.cpu.pf (x.cpu.pfInput i) →
      (x.fetch.queue (x.cpu.pfInput i)).head?.any (i.iWbData == mem ·))
  next := Issuing.next

instance (mem : BitVec 23 → BitVec 32) (x : Issuing) (i : Input) :
    Decidable ((issuing mem).allowed x i) :=
  inferInstanceAs (Decidable (_ ∧ (_ → _)))

/-- What has been handed over is what has been issued and what the decoder holds. -/
structure Issuing.Kept (mem : BitVec 23 → BitVec 32) (x : Issuing) : Prop where
  fetch : DblFetch.Invariant mem x.fetch
  cleared : x.cleared → x.cpu.newPc
  legal : x.cpu.pf.oIllegal = false
  mode : x.origin.isSome → x.cpu.newPc = false → x.cpu.gie = x.mode
  phase : x.cpu.dcd.rPhase → x.cpu.dcd.rValid ∧ x.cpu.dcd.rNxtHalf.getLsbD 15
  gie : x.origin.isSome → x.cpu.dcd.rPhase → x.cpu.dcd.oGie = x.mode
  order : x.origin.isSome →
    x.issued ++ x.cpu.dcd.waiting = x.handed.flatMap (instructions x.mode)

variable {mem : BitVec 23 → BitVec 32} {x : Issuing} {i : Input} {s : State}

theorem Issuing.Kept.quiet (h : x.Kept mem) (hi : (issuing mem).allowed x i) :
    DblFetch.Allowed mem x.fetch (x.cpu.pfInput i) where
  noErr := hi.1
  answers := by
    intro ha
    obtain ⟨a, hq, hd⟩ := (Option.any_eq_true _ _).mp (hi.2 ha)
    exact ⟨a, hq, eq_of_beq hd⟩
  clearThenNew := h.cleared

theorem Issuing.Kept.legal_next (h : x.Kept mem) (hi : (issuing mem).allowed x i) :
    (x.next i).cpu.pf.oIllegal = false := by
  have hl := h.legal
  have he := hi.1
  change (DblFetch.step x.cpu.pf (x.cpu.pfInput i)).oIllegal = false
  simp only [DblFetch.step, he, hl]
  grind

theorem Issuing.cleared_next (hc : (x.next i).cleared) : (x.next i).cpu.newPc := by
  change x.cpu.clearIcache = true at hc
  change x.cpu.nextNewPc i = true
  simp [State.nextNewPc, hc]

theorem Issuing.origin_next : (x.next i).origin =
    if i.iRst || x.cpu.clearIcache then none
    else if x.cpu.newPc then some x.cpu.pfPc
    else x.origin := rfl

theorem Issuing.Kept.mode_next (h : x.Kept mem) (ho : (x.next i).origin.isSome)
    (hn : (x.next i).cpu.newPc = false) : (x.next i).cpu.gie = (x.next i).mode := by
  have hm := h.mode
  have hg := gie_step hn
  change (step x.cpu i).gie = if x.cpu.newPc then x.cpu.gie else x.mode
  rw [Issuing.origin_next] at ho
  grind

theorem Issuing.Kept.phase_next (h : x.Kept mem) (hp : (x.next i).cpu.dcd.rPhase) :
    (x.next i).cpu.dcd.rValid ∧ (x.next i).cpu.dcd.rNxtHalf.getLsbD 15 := by
  refine IDecode.phase_step h.phase (fun hc => ?_) hp
  simp only [State.dcdInput, State.dcdCe] at hc ⊢
  grind

/-- Neither a reset nor a new program counter. -/
structure State.Runs (s : State) (i : Input) : Prop where
  newPc : s.newPc = false
  clear : s.clearIcache = false
  reset : i.iRst = false

theorem Issuing.origin_cases (ho : (x.next i).origin.isSome) :
    i.iRst = false ∧ x.cpu.clearIcache = false ∧ x.cpu.newPc = true ∨
      x.cpu.Runs i ∧ x.origin.isSome := by
  rw [Issuing.origin_next] at ho
  cases hn : x.cpu.newPc with
  | true =>
    left
    grind
  | false =>
    right
    exact ⟨⟨hn, by grind, by grind⟩, by grind⟩

theorem Issuing.mode_next_of_runs (hr : x.cpu.Runs i) : (x.next i).mode = x.mode := by
  change (if x.cpu.newPc then x.cpu.gie else x.mode) = x.mode
  rw [hr.newPc]
  rfl

theorem Issuing.handed_next (hr : x.cpu.Runs i) : (x.next i).handed =
    if taken x.cpu.pf (x.cpu.pfInput i) then
      x.handed ++ [(x.cpu.pf.oPc, x.cpu.pf.oInsn)]
    else x.handed := by
  change (if i.iRst || x.cpu.clearIcache || x.cpu.newPc then [] else _) = _
  rw [hr.reset, hr.clear, hr.newPc]
  rfl

theorem Issuing.issued_next (hr : x.cpu.Runs i) : (x.next i).issued =
    if x.cpu.opCe && x.cpu.dcd.rValid then x.issued ++ [x.cpu.dcd.held] else x.issued := by
  change (if i.iRst || x.cpu.clearIcache || x.cpu.newPc then [] else _) = _
  rw [hr.reset, hr.clear, hr.newPc]
  rfl

/-- While the operand stage is stalled nothing moves in front of it. -/
theorem Issuing.order_stalled (hr : x.cpu.Runs i) (hs : x.cpu.dcdStalled) :
    (x.next i).issued ++ (x.next i).cpu.dcd.waiting = x.issued ++ x.cpu.dcd.waiting ∧
      (x.next i).handed = x.handed := by
  have hv : x.cpu.dcd.rValid = true ∧ x.cpu.opStall = true := by simpa [State.dcdStalled] using hs
  have hw : (x.next i).cpu.dcd.waiting = x.cpu.dcd.waiting :=
    IDecode.waiting_stalled (by simp [State.dcdInput, hr.newPc, hr.clear])
      (by simp [State.dcdInput, State.dcdCe, hs, hv]) hs
  rw [hw, issued_next hr, handed_next hr]
  simp [State.opCe, hv, taken, State.pfInput, State.pfStalled, hs]

/-- What the decoder holds, to the operand stage. -/
theorem Issuing.issued_first (hr : x.cpu.Runs i) (hs : x.cpu.dcdStalled = false) :
    (x.next i).issued = x.issued ++ if x.cpu.dcd.rValid then [x.cpu.dcd.held] else [] := by
  rw [issued_next hr]
  simp only [State.dcdStalled, State.opCe] at hs ⊢
  rcases Bool.eq_false_or_eq_true x.cpu.dcd.rValid with hv | hv
  · rw [hv, Bool.true_and] at hs
    simp [hv, hs]
  · simp [hv]

theorem Issuing.Kept.order_next (h : x.Kept mem) (ho : (x.next i).origin.isSome) :
    (x.next i).issued ++ (x.next i).cpu.dcd.waiting =
      (x.next i).handed.flatMap (instructions (x.next i).mode) := by
  rcases Issuing.origin_cases ho with ⟨hrst, hcl, hn⟩ | ⟨hr, ho⟩
  · have hw : (x.next i).cpu.dcd.waiting = [] :=
      IDecode.waiting_reset (by simp [State.dcdInput, hn])
    rw [hw]
    simp [Issuing.next, Stream.next, State.pfInput, hn]
  · rw [mode_next_of_runs hr]
    have hord := h.order ho
    have hm := h.mode ho hr.newPc
    cases hs : x.cpu.dcdStalled with
    | true =>
      obtain ⟨hw, hh⟩ := order_stalled hr hs
      rw [hw, hh, hord]
    | false =>
      have hq : x.cpu.dcdInput.Runs :=
        ⟨by simp [State.dcdInput, hr.newPc, hr.clear], by simp [State.dcdInput, State.dcdCe, hs],
          h.legal⟩
      have ht : taken x.cpu.pf (x.cpu.pfInput i) = (x.cpu.pf.oValid && !x.cpu.dcd.rPhase) := by
        simp [taken, State.pfInput, State.pfStalled, hs]
      rw [issued_first hr hs, handed_next hr, ht]
      rw [IDecode.State.waiting] at hord
      change _ ++ (IDecode.step x.cpu.dcd x.cpu.dcdInput).waiting = _
      cases hp : x.cpu.dcd.rPhase with
      | true =>
        obtain ⟨hv, hh⟩ := h.phase hp
        rw [IDecode.waiting_second hq hp hh (hm.trans (h.gie ho hp).symm)]
        simpa [hv, hp] using hord
      | false =>
        rw [hp] at hord
        simp only [Bool.false_eq_true, if_false, List.append_nil] at hord
        cases hv : x.cpu.pf.oValid with
        | true =>
          rw [IDecode.waiting_word hq hp hv]
          simp [hord, State.dcdInput, hm]
        | false =>
          rw [IDecode.waiting_empty hq hp hv]
          simpa using hord

theorem Issuing.Kept.gie_next (h : x.Kept mem) (ho : (x.next i).origin.isSome)
    (hp : (x.next i).cpu.dcd.rPhase) : (x.next i).cpu.dcd.oGie = (x.next i).mode := by
  rcases Issuing.origin_cases ho with ⟨hrst, hcl, hn⟩ | ⟨hr, ho⟩
  · simp [Issuing.next, step, IDecode.step, State.dcdInput, hn] at hp
  · rw [mode_next_of_runs hr]
    have hm := h.mode ho hr.newPc
    have hg := h.gie ho
    simp only [Issuing.next, step, IDecode.step, State.dcdInput] at hp ⊢
    grind

theorem Issuing.Kept.next (h : x.Kept mem) (hi : (issuing mem).allowed x i) :
    (x.next i).Kept mem where
  fetch := DblFetch.invariant_next h.fetch (h.quiet hi)
  cleared := cleared_next
  legal := h.legal_next hi
  mode := h.mode_next
  phase := h.phase_next
  gie := h.gie_next
  order := h.order_next

theorem Issuing.kept_of_reachable (h : (issuing mem).Reachable x) : x.Kept mem := by
  refine h.invariant (P := Issuing.Kept mem) (fun y hy => ?_) fun y j hy hj => hy.next hj
  obtain ⟨hc, hp, hcl, ho, hh⟩ := hy
  obtain ⟨cache, hpf⟩ := hc.pf
  constructor
  · exact DblFetch.invariant_init ⟨cache, by simp [Issuing.fetch, hpf, hp, hcl, ho, hh]⟩
  all_goals simp [hcl, hpf, ho, DblFetch.initial, hc.dcd.rPhase]

/-- Wherever the processor was last sent, what it has issued since, in the mode it had then, are
the instructions of the program from there on, in order and each once: as many words as have been
handed over, less the two instructions the decoder holds at most. -/
theorem issued_of_reachable (h : (issuing mem).Reachable x) {P : BitVec 23}
    (hP : P ∈ x.origin) : ∃ n, ∃ held : List Issue, held.length ≤ 2 ∧
      x.issued ++ held = (program mem P n).flatMap (instructions x.mode) := by
  have hk := Issuing.kept_of_reachable h
  have ho : x.origin.isSome := by rw [Option.mem_def.mp hP]; rfl
  refine ⟨x.handed.length, x.cpu.dcd.waiting, ?_, ?_⟩
  · simp only [IDecode.State.waiting, List.length_append]
    split <;> split <;> simp
  · rw [hk.order ho]
    exact congrArg _ (hk.fetch.handed P hP)

/-- After a reset, a memory full of `ADD 5,R2` and `ADD 3,R1` in one word. -/
def twoAdds : Issuing :=
  ([{ idle with iRst := true }, idle, idle, idle, idle, answer true 0x92050a03 false,
    answer true 0x92050a03 false, idle, idle, idle, idle, idle, answer true 0x92050a03 false,
    answer true 0x92050a03 false, idle, idle, idle, idle] : List Input).foldl Issuing.next
      ⟨ZipBones.powerUp.cpu, [], false, none, [], false, []⟩

theorem issued_twoAdds : twoAdds.issued.length = 4 ∧ ∃ n, ∃ held : List Issue, held.length ≤ 2 ∧
    twoAdds.issued ++ held =
      (program (fun _ => 0x92050a03) resetBusAddress n).flatMap (instructions twoAdds.mode) := by
  have hr : (issuing fun _ => 0x92050a03).Reachable twoAdds :=
    (System.reachable_init (M := issuing fun _ => 0x92050a03)
      ⟨ZipBones.powerUp_init.cpu, rfl, rfl, rfl, rfl⟩).foldl (by decide +kernel)
  exact ⟨by decide +kernel, issued_of_reachable hr (by decide +kernel)⟩

end S6Soc.ZipCpu
