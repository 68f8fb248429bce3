import Mathlib
import S6Soc.UserMode

/-! The processor as a master of the Wishbone bus, behind its arbiter: what a slave that answers
nothing it was not asked can rely on. -/
namespace S6Soc.ZipCpu
open Clocked

def State.wbStb (s : State) : Bool := if s.rAOwner then s.mem.oWbStbGbl else s.pf.oWbStb

def State.wbWe (s : State) : Bool := s.rAOwner && s.mem.oWbWe

def State.wbAddr (s : State) : BitVec 23 := if s.rAOwner then s.mem.oWbAddr else s.pf.oWbAddr

/-- `o_wb_data` and `o_wb_sel`, the memory unit's also while the prefetch has the bus. -/
def State.wbStored (s : State) : BitVec 32 × BitVec 4 := (s.mem.oWbData, s.mem.oWbSel)

/-- The processor, and the requests of the bus cycle that are taken and not answered. -/
structure OnBus where
  cpu : State
  owed : ℕ

def OnBus.taken (x : OnBus) (i : Input) : Bool := x.cpu.wbCyc && x.cpu.wbStb && !i.iWbStall

def OnBus.answered (x : OnBus) (i : Input) : Bool := x.cpu.wbCyc && (i.iWbAck || i.iWbErr)

def OnBus.next (x : OnBus) (i : Input) : OnBus where
  cpu := step x.cpu i
  owed :=
    if x.cpu.wbCyc && (step x.cpu i).wbCyc then
      x.owed + (x.taken i).toNat - (x.answered i).toNat
    else 0

/-- Slaves answer, with an acknowledgement or an error, only what has been asked. -/
def bus : System OnBus Input where
  init x := x.cpu.Initial ∧ x.owed = 0
  allowed x i := x.answered i → 0 < x.owed + (x.taken i).toNat
  next := OnBus.next

instance OnBus.decidableAllowed (x : OnBus) (i : Input) : Decidable (bus.allowed x i) :=
  inferInstanceAs (Decidable (x.answered i → 0 < x.owed + (x.taken i).toNat))

/-- The rules of the bus. -/
structure OnBus.Obeys (x : OnBus) (i : Input) : Prop where
  strobes : x.cpu.wbStb → x.cpu.wbCyc
  held : x.cpu.wbStb → i.iWbStall → (x.next i).cpu.wbCyc →
    (x.next i).cpu.wbStb ∧ (x.next i).cpu.wbAddr = x.cpu.wbAddr ∧
      (x.next i).cpu.wbWe = x.cpu.wbWe ∧
      (x.cpu.wbWe → (x.next i).cpu.wbStored = x.cpu.wbStored)
  few : x.owed + x.cpu.wbStb.toNat ≤ if x.cpu.rAOwner then 1 else 2
  ends : x.cpu.wbCyc → (x.next i).cpu.wbCyc = false →
    x.owed + (x.taken i).toNat = (x.answered i).toNat ∨ i.iWbErr ∨ i.iRst ∨
      x.cpu.rAOwner = false ∧ (x.cpu.newPc ∨ x.cpu.clearIcache)

/-- The memory unit has one request in a bus cycle, the prefetch two. -/
structure OnBus.Kept (x : OnBus) : Prop where
  sound : x.cpu.Sound
  memStb : x.cpu.mem.oWbStbGbl → x.cpu.mem.rWbCycGbl
  pfStb : x.cpu.pf.oWbStb → x.cpu.pf.oWbCyc
  idle : x.cpu.wbCyc = false → x.owed = 0
  mem : x.cpu.rAOwner → x.cpu.mem.rWbCycGbl → x.owed = (!x.cpu.mem.oWbStbGbl).toNat
  memWaits : x.cpu.rAOwner = false → x.cpu.mem.rWbCycGbl → x.cpu.mem.oWbStbGbl
  pf : x.cpu.rAOwner = false → x.cpu.pf.oWbCyc →
    x.owed + x.cpu.pf.lastAck.toNat = if x.cpu.pf.oWbStb then x.cpu.pf.lastStb.toNat else 2
  pfWaits : x.cpu.rAOwner → x.cpu.pf.oWbCyc →
    x.cpu.pf.oWbStb ∧ x.cpu.pf.lastStb = false ∧ x.cpu.pf.lastAck = false

variable {x : OnBus} {i : Input}

/-- Nothing is asked of the memory unit while it is at work. -/
theorem OnBus.Kept.not_asked (h : x.Kept) (hc : x.cpu.mem.rWbCycGbl) :
    (x.cpu.memInput i).iStb = false := by
  have hw := h.sound.memCe_waits (i := i)
  have hv := (h.sound.loads (by simp [MemOps.State.active, hc])).2.2.2.2
  simp only [State.memInput]
  grind

theorem OnBus.Kept.wbCyc_eq (h : x.Kept) :
    x.cpu.wbCyc = if x.cpu.rAOwner then x.cpu.mem.rWbCycGbl else x.cpu.pf.oWbCyc := by
  simp [State.wbCyc, MemOps.State.oWbCycGbl, h.sound.mem.lock]

theorem OnBus.Kept.memStb_next (h : x.Kept) (hi : bus.allowed x i)
    (hs : (x.next i).cpu.mem.oWbStbGbl) : (x.next i).cpu.mem.rWbCycGbl := by
  have hl := h.sound.mem.lock
  have hc := h.wbCyc_eq
  have hst := h.memStb
  have hm := h.mem
  have hn := h.not_asked (i := i)
  simp only [bus, OnBus.taken, OnBus.answered, State.wbStb, hc] at hi
  simp only [OnBus.next, step, MemOps.step, State.memInput, MemOps.State.oWbCycGbl, hl] at hs hn ⊢
  cases ho : x.cpu.rAOwner <;> simp only [ho] at * <;> grind

theorem OnBus.Kept.pfStb_next (h : x.Kept) (hs : (x.next i).cpu.pf.oWbStb) :
    (x.next i).cpu.pf.oWbCyc := by
  have hst := h.pfStb
  simp only [OnBus.next, step, DblFetch.step, DblFetch.nextStb, DblFetch.nextCyc] at hs ⊢
  grind

theorem OnBus.idle_next (hc : (x.next i).cpu.wbCyc = false) :
    (x.next i).owed = 0 := by
  change (if x.cpu.wbCyc && (x.next i).cpu.wbCyc then _ else 0) = 0
  rw [hc, Bool.and_false]
  rfl

/-- The bus changes hands only between bus cycles. -/
theorem rAOwner_step {s : State} (hc : s.wbCyc) (hr : i.iRst = false) :
    (step s i).rAOwner = s.rAOwner := by
  simp [step, State.nextRAOwner, hc, hr]

theorem OnBus.owed_next (hc : (x.next i).cpu.wbCyc) :
    (x.next i).owed = if x.cpu.wbCyc then
      x.owed + (x.taken i).toNat - (x.answered i).toNat else 0 := by
  change (if x.cpu.wbCyc && (x.next i).cpu.wbCyc then _ else 0) = _
  rw [hc, Bool.and_true]

theorem OnBus.Kept.mem_next (h : x.Kept) (hi : bus.allowed x i) (ho : (x.next i).cpu.rAOwner)
    (hb : (x.next i).cpu.mem.rWbCycGbl) :
    (x.next i).owed = (!(x.next i).cpu.mem.oWbStbGbl).toNat := by
  have hl := h.sound.mem.lock
  have hc := h.wbCyc_eq
  have hm := h.mem
  have hw := h.memWaits
  have hst := h.memStb
  have hn := h.not_asked (i := i)
  have hc' : (x.next i).cpu.wbCyc = true := by
    rw [State.wbCyc, if_pos ho, MemOps.State.oWbCycGbl, hb, Bool.true_or]
  rw [owed_next hc']
  simp only [bus, OnBus.taken, OnBus.answered, State.wbStb, hc] at hi ⊢
  simp only [OnBus.next, step, MemOps.step, State.memInput, MemOps.State.oWbCycGbl, hl,
    State.nextRAOwner, hc] at hb hn ho ⊢
  cases howner : x.cpu.rAOwner <;> cases hmb : x.cpu.mem.rWbCycGbl <;>
    simp only [howner, hmb, Bool.toNat, cond_eq_ite] at * <;> grind

theorem OnBus.Kept.memWaits_next (h : x.Kept) (ho : (x.next i).cpu.rAOwner = false)
    (hb : (x.next i).cpu.mem.rWbCycGbl) : (x.next i).cpu.mem.oWbStbGbl := by
  have hl := h.sound.mem.lock
  have hc := h.wbCyc_eq
  have hw := h.memWaits
  have hn := h.not_asked (i := i)
  simp only [OnBus.next, step, MemOps.step, State.memInput, MemOps.State.oWbCycGbl, hl,
    State.nextRAOwner, hc] at hb hn ho ⊢
  cases howner : x.cpu.rAOwner <;> cases hmb : x.cpu.mem.rWbCycGbl <;>
    simp only [howner, hmb] at * <;> grind

theorem OnBus.Kept.pf_next (h : x.Kept) (hi : bus.allowed x i) (ho : (x.next i).cpu.rAOwner = false)
    (hb : (x.next i).cpu.pf.oWbCyc) :
    (x.next i).owed + (x.next i).cpu.pf.lastAck.toNat =
      if (x.next i).cpu.pf.oWbStb then (x.next i).cpu.pf.lastStb.toNat else 2 := by
  have hc := h.wbCyc_eq
  have hp := h.pf
  have hw := h.pfWaits
  have hst := h.pfStb
  have hc' : (x.next i).cpu.wbCyc = true := by
    rw [State.wbCyc, ho]
    exact hb
  rw [owed_next hc']
  simp only [bus, OnBus.taken, OnBus.answered, State.wbStb, hc] at hi ⊢
  simp only [OnBus.next, step, DblFetch.step, DblFetch.nextStb, DblFetch.nextCyc, State.pfInput,
    State.nextRAOwner, hc] at hb ho ⊢
  rcases Bool.eq_false_or_eq_true x.cpu.rAOwner with howner | howner <;>
    rcases Bool.eq_false_or_eq_true x.cpu.pf.oWbCyc with hpb | hpb <;>
    simp only [howner, hpb, Bool.toNat, cond_eq_ite] at * <;> grind

theorem OnBus.Kept.pfWaits_next (h : x.Kept) (ho : (x.next i).cpu.rAOwner)
    (hb : (x.next i).cpu.pf.oWbCyc) : (x.next i).cpu.pf.oWbStb ∧
      (x.next i).cpu.pf.lastStb = false ∧ (x.next i).cpu.pf.lastAck = false := by
  have hc := h.wbCyc_eq
  have hw := h.pfWaits
  have hst := h.pfStb
  simp only [OnBus.next, step, DblFetch.step, DblFetch.nextStb, DblFetch.nextCyc, State.pfInput,
    State.nextRAOwner, hc] at hb ho ⊢
  rcases Bool.eq_false_or_eq_true x.cpu.rAOwner with howner | howner <;>
    rcases Bool.eq_false_or_eq_true x.cpu.pf.oWbCyc with hpb | hpb <;>
    simp only [howner, hpb] at * <;> grind

theorem OnBus.Kept.next (h : x.Kept) (hi : bus.allowed x i) : (x.next i).Kept where
  sound := h.sound.step
  memStb := h.memStb_next hi
  pfStb := h.pfStb_next
  idle := idle_next
  mem := h.mem_next hi
  memWaits := h.memWaits_next
  pf := h.pf_next hi
  pfWaits := h.pfWaits_next

theorem OnBus.kept_of_reachable (h : bus.Reachable x) : x.Kept := by
  refine h.invariant (P := OnBus.Kept) (fun y hy => ?_) fun y j hy hj => hy.next hj
  obtain ⟨hc, ho⟩ := hy
  obtain ⟨cache, hpf⟩ := hc.pf
  constructor
  · exact hc.sound
  · intro hs
    rw [hc.memStb] at hs
    cases hs
  · intro hs
    rw [hpf] at hs
    cases hs
  · exact fun _ => ho
  · intro _ hb
    rw [hc.memCyc] at hb
    cases hb
  · intro hr _
    rw [hc.rAOwner] at hr
    cases hr
  · intro hr _
    rw [hc.rAOwner] at hr
    cases hr
  · intro _ hb
    rw [hpf] at hb
    cases hb

theorem OnBus.Kept.few (h : x.Kept) :
    x.owed + x.cpu.wbStb.toNat ≤ if x.cpu.rAOwner then 1 else 2 := by
  have hc := h.wbCyc_eq
  have hi := h.idle
  rcases Bool.eq_false_or_eq_true x.cpu.rAOwner with ho | ho
  · rw [State.wbStb, if_pos ho, if_pos ho]
    rw [if_pos ho] at hc
    cases hb : x.cpu.mem.rWbCycGbl with
    | true =>
      rw [h.mem ho hb]
      cases x.cpu.mem.oWbStbGbl <;> decide
    | false =>
      rw [hi (hc.trans hb)]
      cases x.cpu.mem.oWbStbGbl <;> decide
  · have hn : ¬ x.cpu.rAOwner = true := by simp [ho]
    rw [State.wbStb, if_neg hn, if_neg hn]
    rw [if_neg hn] at hc
    cases hb : x.cpu.pf.oWbCyc with
    | true =>
      have hp := h.pf ho hb
      cases hs : x.cpu.pf.oWbStb <;> cases hl : x.cpu.pf.lastStb <;>
        simp only [hs, hl, Bool.toNat, cond_eq_ite] at hp ⊢ <;> grind
    | false =>
      have hs : x.cpu.pf.oWbStb = false := by
        by_contra hs
        have := h.pfStb (by simpa using hs)
        rw [hb] at this
        cases this
      rw [hi (hc.trans hb), hs]
      decide

theorem not_wbCyc_reset (hr : i.iRst) : (x.next i).cpu.wbCyc = false := by
  simp [OnBus.next, step, State.wbCyc, State.nextRAOwner, MemOps.step, State.memInput,
    MemOps.State.oWbCycGbl, hr]

theorem OnBus.Kept.held (h : x.Kept) (hs : x.cpu.wbStb) (hw : i.iWbStall)
    (hc : (x.next i).cpu.wbCyc) : (x.next i).cpu.wbStb ∧ (x.next i).cpu.wbAddr = x.cpu.wbAddr ∧
      (x.next i).cpu.wbWe = x.cpu.wbWe ∧
      (x.cpu.wbWe → (x.next i).cpu.wbStored = x.cpu.wbStored) := by
  have hl := h.sound.mem.lock
  have hcyc := h.wbCyc_eq
  have hr : i.iRst = false := by
    by_contra hr
    rw [not_wbCyc_reset (Bool.eq_true_of_not_eq_false hr)] at hc
    cases hc
  rcases Bool.eq_false_or_eq_true x.cpu.rAOwner with ho | ho
  · have hst : x.cpu.mem.oWbStbGbl := by simpa [State.wbStb, ho] using hs
    have hb := h.memStb hst
    have hn := h.not_asked (i := i) hb
    have hown : (x.next i).cpu.rAOwner = true :=
      (rAOwner_step (by rw [hcyc, ho]; exact hb) hr).trans ho
    simp only [State.wbCyc, State.wbStb, State.wbAddr, State.wbWe, State.wbStored, hown, ho,
      if_true, Bool.true_and] at hc ⊢
    simp only [OnBus.next, step, MemOps.step, hn, MemOps.State.oWbCycGbl, hl, hb] at hc ⊢
    simp only [State.memInput, ho, hst, hw] at hc ⊢
    grind
  · have hn : ¬ x.cpu.rAOwner = true := by simp [ho]
    have hst : x.cpu.pf.oWbStb := by simpa [State.wbStb, ho] using hs
    have hb := h.pfStb hst
    have hown : (x.next i).cpu.rAOwner = false :=
      (rAOwner_step (by rw [hcyc, if_neg hn]; exact hb) hr).trans ho
    simp only [State.wbCyc, State.wbStb, State.wbAddr, State.wbWe, hown, ho, Bool.false_and] at hc ⊢
    simp only [OnBus.next, step, DblFetch.step, DblFetch.nextStb, DblFetch.nextCyc, State.pfInput,
      ho, hst, hb, hw] at hc ⊢
    grind

theorem OnBus.Kept.ends (h : x.Kept) (hi : bus.allowed x i) (hc : x.cpu.wbCyc)
    (he : (x.next i).cpu.wbCyc = false) :
    x.owed + (x.taken i).toNat = (x.answered i).toNat ∨ i.iWbErr ∨ i.iRst ∨
      x.cpu.rAOwner = false ∧ (x.cpu.newPc ∨ x.cpu.clearIcache) := by
  have hl := h.sound.mem.lock
  have hcyc := h.wbCyc_eq
  cases hr : i.iRst with
  | true => exact Or.inr (Or.inr (Or.inl rfl))
  | false =>
    cases herr : i.iWbErr with
    | true => exact Or.inr (Or.inl rfl)
    | false =>
      have hown : (x.next i).cpu.rAOwner = x.cpu.rAOwner := rAOwner_step hc hr
      simp only [bus, OnBus.taken, OnBus.answered, hc, State.wbStb] at hi ⊢
      rcases Bool.eq_false_or_eq_true x.cpu.rAOwner with ho | ho
      · have hb : x.cpu.mem.rWbCycGbl := by simpa [hcyc, ho] using hc
        have hm := h.mem ho hb
        rw [State.wbCyc, hown, if_pos ho] at he
        simp only [OnBus.next, step, MemOps.step, MemOps.State.oWbCycGbl, hl, hb, State.memInput,
          ho, hr, herr] at he
        simp only [ho, hm, herr, Bool.toNat, cond_eq_ite] at hi ⊢
        grind
      · have hn : ¬ x.cpu.rAOwner = true := by simp [ho]
        have hb : x.cpu.pf.oWbCyc := by simpa [hcyc, ho] using hc
        have hp := h.pf ho hb
        rw [State.wbCyc, hown, if_neg hn] at he
        simp only [OnBus.next, step, DblFetch.step, DblFetch.nextCyc, State.pfInput, hb, ho, hr,
          herr] at he
        simp only [ho, herr, Bool.toNat, cond_eq_ite] at hi hp ⊢
        grind

/-- In every run the processor keeps the rules: it strobes only within a bus cycle, holds a
stalled request as it is or ends the cycle, has at most two requests open, and ends a cycle with
one open only for an error, a reset or a prefetch that is no longer wanted. -/
theorem obeys_of_reachable (h : bus.Reachable x) (hi : bus.allowed x i) : x.Obeys i := by
  have hk := OnBus.kept_of_reachable h
  have hc := hk.wbCyc_eq
  constructor
  · intro hs
    have hm := hk.memStb
    have hp := hk.pfStb
    rw [hc]
    simp only [State.wbStb] at hs
    grind
  · exact hk.held
  · exact hk.few
  · exact hk.ends hi

/-- The user's load has the bus, and has been taken. -/
def loading : OnBus :=
  (toUserLoad ++ [idle, idle, idle, idle]).foldl OnBus.next ⟨ZipBones.powerUp.cpu, 0⟩

theorem obeys_loading : loading.cpu.wbCyc ∧ loading.Obeys (answer true 5 false) := by
  have hr : bus.Reachable loading :=
    (System.reachable_init (M := bus) ⟨ZipBones.powerUp_init.cpu, rfl⟩).foldl (by decide +kernel)
  exact ⟨by decide +kernel, obeys_of_reachable hr (by decide +kernel)⟩

end S6Soc.ZipCpu
