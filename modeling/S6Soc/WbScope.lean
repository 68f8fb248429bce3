import Mathlib.Algebra.Ring.Nat
import Mathlib.Data.List.Nodup
import Mathlib.Data.Nat.Init
import Mathlib.Logic.Function.Basic
import Mathlib.Tactic.ByContra
import Mathlib.Tactic.SplitIfs

/-! The scope `wbscope`, its clocks one and the same: a circular memory of the samples, which
stops a while after the trigger and is then read through a data register. The registers that
do not depend on the samples are kept apart from those that do. -/
namespace S6Soc.WbScope

structure Input where
  iCe : Bool
  iTrigger : Bool
  iWbCyc : Bool
  iWbStb : Bool
  iWbWe : Bool
  iWbAddr : Bool
  iWbData : BitVec 32

structure Control (lg hb : ℕ) where
  brConfig : BitVec 3
  brHoldoff : BitVec hb
  drTriggered : Bool
  drPrimed : Bool
  counter : BitVec hb
  drStopped : Bool
  waddr : BitVec lg
  raddr : BitVec lg
  brWbAck : Bool
  brLevelInterrupt : Bool

structure State (lg hb : ℕ) where
  ctl : Control lg hb
  mem : BitVec lg → BitVec 32
  nxtMem : BitVec 32
  oWbData : BitVec 32

/-- The data register is read. -/
def Input.reads (i : Input) : Bool := i.iWbStb && i.iWbAddr && !i.iWbWe

def Input.writes (i : Input) : Bool := i.iWbStb && i.iWbWe

/-- The control register is written. -/
def Input.sets (i : Input) : Bool := i.iWbStb && !i.iWbAddr && i.iWbWe

variable {lg hb : ℕ}

def Control.bwResetRequest (c : Control lg hb) : Bool := !c.brConfig.getLsbD 2

def Control.bwManualTrigger (c : Control lg hb) : Bool := c.brConfig.getLsbD 1

def Control.bwDisableTrigger (c : Control lg hb) : Bool := c.brConfig.getLsbD 0

def Control.dwTrigger (c : Control lg hb) (i : Input) : Bool :=
  c.drPrimed && ((i.iTrigger && !c.bwDisableTrigger) || c.bwManualTrigger)

/-- A sample is put into the memory. -/
def Control.records (c : Control lg hb) (i : Input) : Bool := i.iCe && !c.drStopped

/-- `bw_reset_complete` is `bw_reset_request` here. -/
def Control.next (c : Control lg hb) (i : Input) : Control lg hb where
  brConfig :=
    if i.iWbStb && !i.iWbAddr then
      if i.iWbWe then i.iWbData.extractLsb' 31 1 ++ i.iWbData.extractLsb' 26 2 else c.brConfig
    else if c.bwResetRequest then 1#1 ++ c.brConfig.extractLsb' 0 2
    else c.brConfig
  brHoldoff := if i.sets then i.iWbData.setWidth hb else c.brHoldoff
  drTriggered :=
    if c.bwResetRequest then false
    else if i.iCe && c.dwTrigger i then true
    else c.drTriggered
  drPrimed :=
    if c.bwResetRequest then false
    else if c.records i then c.drPrimed || c.waddr == BitVec.allOnes lg
    else c.drPrimed
  counter :=
    if c.bwResetRequest then 0
    else if i.iCe && c.drTriggered && !c.drStopped then c.counter + 1
    else c.counter
  drStopped :=
    if !c.drTriggered || c.bwResetRequest then false else decide (c.brHoldoff ≤ c.counter)
  waddr :=
    if c.bwResetRequest then 0 else if c.records i then c.waddr + 1 else c.waddr
  raddr :=
    if c.bwResetRequest || (i.iWbStb && i.iWbAddr && i.iWbWe) then 0
    else if i.reads && c.drStopped then c.raddr + 1
    else c.raddr
  brWbAck := i.iWbStb
  brLevelInterrupt :=
    if c.bwResetRequest then false else c.drStopped && !c.bwDisableTrigger

/-- What a read of the control register returns. -/
def Control.status (c : Control lg hb) : BitVec 32 :=
  BitVec.ofBool c.bwResetRequest ++ BitVec.ofBool c.drStopped ++ BitVec.ofBool c.drTriggered ++
    BitVec.ofBool c.drPrimed ++ BitVec.ofBool c.bwManualTrigger ++
    BitVec.ofBool c.bwDisableTrigger ++ BitVec.ofBool (c.raddr == 0) ++ BitVec.ofNat 5 lg ++
    c.brHoldoff.setWidth 20

def State.next (s : State lg hb) (i : Input) (iData : BitVec 32) : State lg hb where
  ctl := s.ctl.next i
  mem := if s.ctl.records i then Function.update s.mem s.ctl.waddr iData else s.mem
  nxtMem := s.mem (s.ctl.raddr + s.ctl.waddr + if i.reads then 1 else 0)
  oWbData :=
    if !i.iWbAddr then s.ctl.status
    else if !s.ctl.drStopped then iData
    else s.nxtMem

def State.oWbAck (s : State lg hb) (i : Input) : Bool := i.iWbCyc && s.ctl.brWbAck

def State.oInterrupt (s : State lg hb) : Bool :=
  s.ctl.drStopped && !s.ctl.bwDisableTrigger && !s.ctl.brLevelInterrupt

/-- The hold-off a scope starts with is a parameter, and the address read from is not said. -/
structure PowerUp (c : Control lg hb) : Prop where
  brConfig : c.brConfig = 0
  drTriggered : c.drTriggered = false
  drPrimed : c.drPrimed = false
  counter : c.counter = 0
  drStopped : c.drStopped = false
  waddr : c.waddr = 0
  brWbAck : c.brWbAck = false
  brLevelInterrupt : c.brLevelInterrupt = false

/-- After `n` clocks of the inputs `is`. -/
def Control.run (c : Control lg hb) (is : ℕ → Input) : ℕ → Control lg hb
  | 0 => c
  | n + 1 => (c.run is n).next (is n)

/-- After `n` clocks of the inputs `is` and the samples `data`. -/
def State.run (s : State lg hb) (is : ℕ → Input) (data : ℕ → BitVec 32) : ℕ → State lg hb
  | 0 => s
  | n + 1 => (s.run is data n).next (is n) (data n)

/-- The clocks before `n` whose samples were recorded, the last of them first. -/
def Control.recorded (c : Control lg hb) (is : ℕ → Input) : ℕ → List ℕ
  | 0 => []
  | n + 1 =>
    if (c.run is n).records (is n) then n :: c.recorded is n else c.recorded is n

/-- What the reads of the data register in the `n` clocks from `t` on return. -/
def State.readings (s : State lg hb) (is : ℕ → Input) (data : ℕ → BitVec 32) (t : ℕ) :
    ℕ → List (BitVec 32)
  | 0 => []
  | n + 1 =>
    s.readings is data t n ++
      if (is (t + n)).reads then [(s.run is data (t + n + 1)).oWbData] else []

/-- How many there are. -/
def readCount (is : ℕ → Input) (t : ℕ) : ℕ → ℕ
  | 0 => 0
  | n + 1 => readCount is t n + if (is (t + n)).reads then 1 else 0

/-- A trigger is taken in clock `k`, the scope stops for it in clock `t`, and all of the memory is
read in the `n` clocks from there on. -/
structure Capture (c : Control lg hb) (is : ℕ → Input) (k t n : ℕ) : Prop where
  untriggered : (c.run is k).drTriggered = false
  triggered : ∀ m, k < m → m ≤ t → (c.run is m).drTriggered = true
  running : ∀ m, k < m → m < t → (c.run is m).drStopped = false
  before : k < t
  stopped : (c.run is t).drStopped = true
  unwritten : ∀ m, m < n → (is (t + m)).writes = false
  count : readCount is t n = 2 ^ lg

/-- What the scope promises of a capture. -/
structure Shown (s : State lg hb) (is : ℕ → Input) (k t n : ℕ) : Prop where
  /-- It stays stopped while it is being read. -/
  stopped : ∀ m ≤ n, (s.ctl.run is (t + m)).drStopped = true
  /-- The sample of the trigger is one more than the hold-off before the last. -/
  trigger : ∃ later, s.ctl.recorded is t = later ++ k :: s.ctl.recorded is k ∧
    later.length = (s.ctl.run is (t - 1)).brHoldoff.toNat + 1
  /-- What is read are the last samples, the oldest of them first. -/
  samples : ∀ data, s.readings is data t n =
    (((s.ctl.recorded is t).take (2 ^ lg)).reverse).map data

variable {s : State lg hb} {c : Control lg hb} {i : Input} {is : ℕ → Input} {data : ℕ → BitVec 32}
  {k m n t : ℕ}

theorem run_ctl (n : ℕ) : (s.run is data n).ctl = s.ctl.run is n := by
  induction n with
  | zero => rfl
  | succ n ih => rw [State.run, Control.run, ← ih]; rfl

theorem next_reset (hr : c.bwResetRequest = true) : (c.next i).drTriggered = false ∧
    (c.next i).drPrimed = false ∧ (c.next i).drStopped = false ∧ (c.next i).counter = 0 ∧
    (c.next i).waddr = 0 ∧ (c.next i).raddr = 0 := by
  simp [Control.next, hr]

/-- Triggered, a scope was not reset. -/
theorem not_reset_of_triggered (h : (c.next i).drTriggered = true) : c.bwResetRequest = false := by
  cases hr : c.bwResetRequest with
  | false => rfl
  | true => rw [(next_reset hr).1] at h; cases h

theorem next_drTriggered (hr : c.bwResetRequest = false) (ht : c.drTriggered = true) :
    (c.next i).drTriggered = true := by
  simp [Control.next, hr, ht]

theorem next_drStopped (hr : c.bwResetRequest = false) (ht : c.drTriggered = true) :
    (c.next i).drStopped = decide (c.brHoldoff ≤ c.counter) := by
  simp [Control.next, hr, ht]

theorem next_waddr (hr : c.bwResetRequest = false) :
    (c.next i).waddr = if c.records i then c.waddr + 1 else c.waddr := by
  simp [Control.next, hr]

theorem next_raddr_running (hs : c.drStopped = false) (h : c.raddr = 0) : (c.next i).raddr = 0 := by
  simp [Control.next, hs, h]

theorem next_counter_waiting (ht : c.drTriggered = false) (h : c.counter = 0) :
    (c.next i).counter = 0 := by
  simp [Control.next, ht, h]

theorem next_counter (hr : c.bwResetRequest = false) (hc : i.iCe = true)
    (ht : c.drTriggered = true) (hs : c.drStopped = false) :
    (c.next i).counter = c.counter + 1 := by
  simp [Control.next, hr, hc, ht, hs]

structure Sound (c : Control lg hb) : Prop where
  triggered : c.drStopped = true → c.drTriggered = true
  primed : c.drTriggered = true → c.drPrimed = true
  ready : c.drTriggered = false → c.bwResetRequest = false → c.raddr = 0 ∧ c.counter = 0

theorem PowerUp.sound (h : PowerUp c) : Sound c := by
  constructor
  · simp [h.drStopped]
  · simp [h.drTriggered]
  · simp [Control.bwResetRequest, h.brConfig]

theorem Sound.running (h : Sound c) (ht : c.drTriggered = false) : c.drStopped = false := by
  cases hs : c.drStopped with
  | false => rfl
  | true => rw [h.triggered hs] at ht; cases ht

theorem Sound.next (h : Sound c) (i : Input) : Sound (c.next i) := by
  cases hr : c.bwResetRequest with
  | true =>
    obtain ⟨h₁, h₂, h₃, h₄, -, h₆⟩ := next_reset (i := i) hr
    constructor <;> simp [h₁, h₃, h₄, h₆]
  | false =>
    constructor
    · intro hs
      cases ht : c.drTriggered with
      | true => exact next_drTriggered hr ht
      | false => simp [Control.next, ht] at hs
    · intro ht
      have hp : c.drPrimed = true := by
        cases hp : c.drPrimed with
        | true => rfl
        | false =>
          cases ht' : c.drTriggered with
          | true => rw [h.primed ht'] at hp; cases hp
          | false => simp [Control.next, hr, ht', Control.dwTrigger, hp] at ht
      simp [Control.next, hr, hp]
    · intro ht _
      have ht' : c.drTriggered = false := by
        cases ht' : c.drTriggered with
        | false => rfl
        | true => rw [next_drTriggered hr ht'] at ht; cases ht
      obtain ⟨h₁, h₂⟩ := h.ready ht' hr
      exact ⟨next_raddr_running (h.running ht') h₁, next_counter_waiting ht' h₂⟩

theorem Sound.run (h : Sound c) (is : ℕ → Input) (n : ℕ) : Sound (c.run is n) := by
  induction n with
  | zero => exact h
  | succ n ih => exact ih.next _

theorem sub_ofNat_succ (x : BitVec lg) (j : ℕ) :
    x - BitVec.ofNat lg (j + 1) = x - 1 - BitVec.ofNat lg j := by
  rw [BitVec.ofNat_add]
  grind

theorem behind_ne (x : BitVec lg) {j : ℕ} (hj : j + 1 < 2 ^ lg) :
    x - 1 - BitVec.ofNat lg j ≠ x := by
  intro h
  have h₀ : BitVec.ofNat lg (j + 1) = 0 := by
    rw [BitVec.ofNat_add]
    grind
  have := congrArg BitVec.toNat h₀
  rw [BitVec.toNat_ofNat, Nat.mod_eq_of_lt hj] at this
  simp at this

theorem succ_behind (x : BitVec lg) (j : ℕ) :
    x + 1 - 1 - BitVec.ofNat lg (j + 1) = x - 1 - BitVec.ofNat lg j := by
  rw [BitVec.add_sub_cancel, sub_ofNat_succ]

theorem oldest_first (x : BitVec lg) {j : ℕ} (hj : j < 2 ^ lg) :
    x - 1 - BitVec.ofNat lg (2 ^ lg - 1 - j) = x + BitVec.ofNat lg j := by
  have h : BitVec.ofNat lg (2 ^ lg - 1 - j) + 1 + BitVec.ofNat lg j = 0 := by
    apply BitVec.eq_of_toNat_eq
    rw [show (1 : BitVec lg) = BitVec.ofNat lg 1 from rfl, ← BitVec.ofNat_add, ← BitVec.ofNat_add,
      show 2 ^ lg - 1 - j + 1 + j = 2 ^ lg by omega]
    rw [BitVec.toNat_ofNat, Nat.mod_self]
    exact (Nat.zero_mod _).symm
  grind

/-- How many of the last samples the memory holds. -/
def Control.filled (c : Control lg hb) : ℕ := if c.drPrimed then 2 ^ lg else c.waddr.toNat

/-- The last samples lie behind the address written next. -/
def Holds (s : State lg hb) (data : ℕ → BitVec 32) (clocks : List ℕ) : Prop :=
  ∀ j < s.ctl.filled, ∃ m, clocks[j]? = some m ∧
    s.mem (s.ctl.waddr - 1 - BitVec.ofNat lg j) = data m

theorem filled_le : c.filled ≤ 2 ^ lg := by
  unfold Control.filled
  split_ifs
  · exact Nat.le_refl _
  · exact Nat.le_of_lt c.waddr.isLt

theorem filled_next_reset (hr : c.bwResetRequest = true) : (c.next i).filled = 0 := by
  obtain ⟨-, h₂, -, -, h₅, -⟩ := next_reset (i := i) hr
  simp [Control.filled, h₂, h₅]

theorem filled_next_stopped (hr : c.bwResetRequest = false) (h : c.records i = false) :
    (c.next i).filled = c.filled := by
  simp [Control.filled, Control.next, hr, h]

theorem filled_next (h : c.records i = true) : (c.next i).filled ≤ c.filled + 1 := by
  cases hr : c.bwResetRequest with
  | true => rw [filled_next_reset hr]; exact Nat.zero_le _
  | false =>
    cases hp : c.drPrimed with
    | true =>
      have hf : c.filled = 2 ^ lg := by simp [Control.filled, hp]
      have := filled_le (c := c.next i)
      omega
    | false =>
      have hf : c.filled = c.waddr.toNat := by simp [Control.filled, hp]
      by_cases ha : c.waddr = BitVec.allOnes lg
      · have := filled_le (c := c.next i)
        have hpos := Nat.two_pow_pos lg
        rw [hf, ha, BitVec.toNat_allOnes]
        omega
      · have hp' : (c.next i).drPrimed = false := by simp [Control.next, hr, h, hp, ha]
        rw [Control.filled, if_neg (by simp [hp']), next_waddr hr, if_pos h, hf, BitVec.toNat_add]
        refine Nat.le_trans (Nat.mod_le _ _) ?_
        have := BitVec.toNat_ofNat 1 lg
        rw [show (1 : BitVec lg).toNat = 1 % 2 ^ lg from this]
        have := Nat.mod_le 1 (2 ^ lg)
        omega

theorem Holds.of_filled_zero (h : s.ctl.filled = 0) {clocks : List ℕ} : Holds s data clocks := by
  intro j hj
  omega

theorem Holds.next {d : BitVec 32} {clocks : List ℕ} (h : Holds s data clocks) (hd : d = data n) :
    Holds (s.next i d) data (if s.ctl.records i then n :: clocks else clocks) := by
  cases hr : s.ctl.bwResetRequest with
  | true => exact .of_filled_zero (filled_next_reset hr)
  | false =>
    cases hw : s.ctl.records i with
    | false =>
      intro j hj
      have hf : (s.next i d).ctl.filled = s.ctl.filled := filled_next_stopped hr hw
      have ha : (s.next i d).ctl.waddr = s.ctl.waddr := by
        change (s.ctl.next i).waddr = _
        rw [next_waddr hr, hw]
        rfl
      have hm : (s.next i d).mem = s.mem := by simp [State.next, hw]
      rw [hf] at hj
      rw [ha, hm]
      exact h j hj
    | true =>
      intro j hj
      have ha : (s.next i d).ctl.waddr = s.ctl.waddr + 1 := by
        change (s.ctl.next i).waddr = _
        rw [next_waddr hr, hw]
        rfl
      have hm : (s.next i d).mem = Function.update s.mem s.ctl.waddr d := by
        simp [State.next, hw]
      have hf : (s.next i d).ctl.filled ≤ s.ctl.filled + 1 := filled_next hw
      rw [ha, hm]
      cases j with
      | zero =>
        refine ⟨n, rfl, ?_⟩
        rw [BitVec.add_sub_cancel, BitVec.sub_zero, Function.update_self, hd]
      | succ j =>
        obtain ⟨m, hc, hv⟩ := h j (by omega)
        have hlt : j + 1 < 2 ^ lg := Nat.lt_of_lt_of_le hj filled_le
        refine ⟨m, hc, ?_⟩
        rw [succ_behind, Function.update_of_ne (behind_ne _ hlt)]
        exact hv

theorem holds_run (h : PowerUp s.ctl) (is : ℕ → Input) (data : ℕ → BitVec 32) (n : ℕ) :
    Holds (s.run is data n) data (s.ctl.recorded is n) := by
  induction n with
  | zero =>
    apply Holds.of_filled_zero
    change s.ctl.filled = 0
    simp [Control.filled, h.drPrimed, h.waddr]
  | succ n ih =>
    have hn := ih.next (i := is n) (n := n) (d := data n) rfl
    rw [run_ctl] at hn
    exact hn

theorem lt_of_mem_recorded (h : m ∈ c.recorded is n) : m < n := by
  induction n with
  | zero => cases h
  | succ n ih =>
    rw [Control.recorded] at h
    split_ifs at h
    · rcases List.mem_cons.1 h with rfl | h
      · exact Nat.lt_succ_self _
      · exact Nat.lt_succ_of_lt (ih h)
    · exact Nat.lt_succ_of_lt (ih h)

/-- No clock is recorded twice. -/
theorem nodup_recorded (n : ℕ) : (c.recorded is n).Nodup := by
  induction n with
  | zero => exact List.nodup_nil
  | succ n ih =>
    rw [Control.recorded]
    split_ifs
    · exact List.nodup_cons.2 ⟨fun h => Nat.lt_irrefl _ (lt_of_mem_recorded h), ih⟩
    · exact ih

namespace Capture

theorem not_reset (h : Capture c is k t n) (hm : k ≤ m) (ht : m < t) :
    (c.run is m).bwResetRequest = false :=
  not_reset_of_triggered (h.triggered (m + 1) (by omega) (by omega))

/-- A scope stops at the earliest two clocks after its trigger. -/
theorem succ_lt (h : Capture c is k t n) : k + 1 < t := by
  have hlt := h.before
  by_contra hn
  obtain rfl : t = k + 1 := by omega
  have hst := h.stopped
  change ((c.run is k).next (is k)).drStopped = true at hst
  simp [Control.next, h.untriggered] at hst

theorem running_of_le (h : Capture c is k t n) (hs : Sound c) (hm : k ≤ m) (ht : m < t) :
    (c.run is m).drStopped = false := by
  rcases Nat.eq_or_lt_of_le hm with rfl | hlt
  · exact (hs.run is k).running h.untriggered
  · exact h.running m hlt ht

theorem raddr_eq (h : Capture c is k t n) (hs : Sound c) (hm : k ≤ m) (ht : m ≤ t) :
    (c.run is m).raddr = 0 := by
  induction m, hm using Nat.le_induction with
  | base => exact ((hs.run is k).ready h.untriggered (h.not_reset (Nat.le_refl _) h.before)).1
  | succ m hm ih =>
    exact next_raddr_running (h.running_of_le hs hm (by omega)) (ih (by omega))

/-- The counter is the number of clocks since the scope was triggered. -/
theorem counter_toNat (h : Capture c is k t n) (hs : Sound c) (hc : ∀ m, (is m).iCe = true)
    (hm : k < m) (ht : m < t) : (c.run is m).counter.toNat = m - (k + 1) := by
  induction m, hm using Nat.le_induction with
  | base =>
    have h₀ := ((hs.run is k).ready h.untriggered (h.not_reset (Nat.le_refl _) h.before)).2
    have h₁ : (c.run is (k + 1)).counter = 0 := next_counter_waiting h.untriggered h₀
    rw [Nat.succ_eq_add_one, h₁, Nat.sub_self]
    rfl
  | succ m hm ih =>
    have ih' := ih (by omega)
    have hr := h.not_reset (m := m) (by omega) (by omega)
    have hg := h.triggered m (by omega) (by omega)
    have hrun := h.running (m + 1) (by omega) ht
    change ((c.run is m).next (is m)).drStopped = false at hrun
    -- the counter is below the hold-off, and so does not wrap
    rw [next_drStopped hr hg, decide_eq_false_iff_not, BitVec.le_def] at hrun
    change ((c.run is m).next (is m)).counter.toNat = _
    rw [next_counter hr (hc m) hg (h.running m (by omega) (by omega)), BitVec.toNat_add]
    have hlt := (c.run is m).brHoldoff.isLt
    have h1 : (1 : BitVec hb).toNat = 1 := by
      change 1 % 2 ^ hb = 1
      exact Nat.mod_eq_of_lt (by omega)
    rw [h1, Nat.mod_eq_of_lt (by omega)]
    omega

theorem holdoff_le (h : Capture c is k t n) :
    (c.run is (t - 1)).brHoldoff ≤ (c.run is (t - 1)).counter := by
  have hlt := h.succ_lt
  have hst := h.stopped
  obtain ⟨m, rfl⟩ : ∃ m, t = m + 1 := ⟨t - 1, by omega⟩
  change ((c.run is m).next (is m)).drStopped = true at hst
  rw [next_drStopped (h.not_reset (by omega) (by omega)) (h.triggered m (by omega) (by omega)),
    decide_eq_true_iff] at hst
  exact hst

/-- Every clock from the trigger to the stop is recorded. -/
theorem recorded_eq (h : Capture c is k t n) (hs : Sound c)
    (hc : ∀ m, (is m).iCe = true)
    (hm : k < m) (ht : m ≤ t) : ∃ later, c.recorded is m = later ++ k :: c.recorded is k ∧
      later.length = m - (k + 1) := by
  have hrec (m : ℕ) (hk : k ≤ m) (ht : m < t) : c.recorded is (m + 1) = m :: c.recorded is m := by
    rw [Control.recorded, if_pos]
    simp [Control.records, hc, h.running_of_le hs hk ht]
  induction m, hm using Nat.le_induction with
  | base => exact ⟨[], hrec k (Nat.le_refl _) h.before, by simp⟩
  | succ m hm ih =>
    obtain ⟨later, he, hl⟩ := ih (by omega)
    refine ⟨m :: later, ?_, ?_⟩
    · rw [hrec m (by omega) (by omega), he]
      rfl
    · rw [List.length_cons, hl]
      omega

theorem filled_eq (h : Capture c is k t n) (hs : Sound c) (hm : k < m) (ht : m ≤ t) :
    (c.run is m).filled = 2 ^ lg := by
  rw [Control.filled, if_pos ((hs.run is m).primed (h.triggered m hm ht))]

theorem pos (h : Capture c is k t n) : 0 < n := by
  rcases Nat.eq_zero_or_pos n with rfl | hn
  · have := h.count
    have hp := Nat.two_pow_pos lg
    rw [readCount] at this
    omega
  · exact hn

end Capture

/-- What a stop needs to last, and its reads to come in order. -/
structure Proper (c : Control lg hb) (is : ℕ → Input) (t : ℕ) : Prop where
  /-- The hold-off was not lowered below the count. -/
  count : (c.run is (t - 1)).counter ≤ (c.run is (t - 1)).brHoldoff
  /-- The scope was not told to start again just before it stopped. -/
  unreset : (c.run is t).bwResetRequest = false
  /-- The counter goes once more, and is still not below the hold-off. -/
  reached : (c.run is t).brHoldoff ≤ (c.run is t).counter
  /-- The first clock of the stop is too early for a first read. -/
  reads : (is t).reads = true → (is (t - 1)).reads = true

/-- The registers of a scope that stays stopped. -/
structure Frozen (c₀ c : Control lg hb) : Prop where
  stopped : c.drStopped = true
  triggered : c.drTriggered = true
  unreset : c.bwResetRequest = false
  reached : c.brHoldoff ≤ c.counter
  waddr : c.waddr = c₀.waddr

theorem Frozen.next {c₀ : Control lg hb} (h : Frozen c₀ c) (hw : i.writes = false) :
    Frozen c₀ (c.next i) := by
  have hs : i.sets = false := by
    rw [Input.writes] at hw
    cases h₁ : i.iWbStb <;> cases h₂ : i.iWbWe <;> simp [h₁, h₂] at hw <;>
      simp [Input.sets, h₁, h₂]
  have hcfg : (c.next i).brConfig = c.brConfig := by
    have hu := h.unreset
    rw [Input.sets] at hs
    simp only [Control.next, hu]
    cases h₁ : i.iWbStb <;> cases h₂ : i.iWbAddr <;> cases h₃ : i.iWbWe <;>
      simp [h₁, h₂, h₃] at hs ⊢
  constructor
  · rw [next_drStopped h.unreset h.triggered, decide_eq_true_iff]
    exact h.reached
  · exact next_drTriggered h.unreset h.triggered
  · rw [Control.bwResetRequest, hcfg]
    exact h.unreset
  · have h₁ : (c.next i).brHoldoff = c.brHoldoff := by simp [Control.next, hs]
    have h₂ : (c.next i).counter = c.counter := by
      simp [Control.next, h.unreset, h.stopped]
    rw [h₁, h₂]
    exact h.reached
  · rw [next_waddr h.unreset, Control.records, h.stopped]
    simpa using h.waddr

theorem frozen_run (h : Capture c is k t n) (hp : Proper c is t) (hm : m ≤ n) :
    Frozen (c.run is t) (c.run is (t + m)) := by
  induction m with
  | zero => exact ⟨h.stopped, h.triggered t h.before (Nat.le_refl _), hp.unreset, hp.reached, rfl⟩
  | succ m ih => exact (ih (by omega)).next (h.unwritten m (by omega))

/-- Every read moves the address on. -/
theorem raddr_run (hs : Sound c) (h : Capture c is k t n) (hp : Proper c is t) (hm : m ≤ n) :
    (c.run is (t + m)).raddr = BitVec.ofNat lg (readCount is t m) := by
  induction m with
  | zero => exact h.raddr_eq hs (Nat.le_of_lt h.before) (Nat.le_refl _)
  | succ m ih =>
    have hf := frozen_run h hp (m := m) (by omega)
    have hw := h.unwritten m (by omega)
    have hw' : ((is (t + m)).iWbStb && (is (t + m)).iWbAddr && (is (t + m)).iWbWe) = false := by
      rw [Input.writes] at hw
      rw [Bool.and_right_comm, hw, Bool.false_and]
    change ((c.run is (t + m)).next (is (t + m))).raddr = _
    have hn : ((c.run is (t + m)).next (is (t + m))).raddr =
        if (is (t + m)).reads then (c.run is (t + m)).raddr + 1 else (c.run is (t + m)).raddr := by
      simp [Control.next, hf.unreset, hf.stopped, hw']
    rw [hn, ih (by omega), readCount]
    cases (is (t + m)).reads with
    | false => rfl
    | true =>
      rw [if_pos rfl, if_pos rfl, BitVec.ofNat_add]
      rfl

theorem mem_run (h : Capture s.ctl is k t n) (hp : Proper s.ctl is t) (hm : m ≤ n) :
    (s.run is data (t + m)).mem = (s.run is data t).mem := by
  induction m with
  | zero => rfl
  | succ m ih =>
    have hf := frozen_run h hp (m := m) (by omega)
    rw [← ih (by omega)]
    change (if (s.run is data (t + m)).ctl.records (is (t + m)) then _ else _) = _
    rw [run_ctl, Control.records, hf.stopped, Bool.not_true, Bool.and_false, if_neg (by simp)]
    rfl

/-- The word fetched is the one the next read returns. -/
theorem nxtMem_run (hs : Sound s.ctl) (h : Capture s.ctl is k t n) (hp : Proper s.ctl is t)
    (hm : m < n) : (s.run is data (t + m + 1)).nxtMem =
      (s.run is data t).mem
        ((s.ctl.run is t).waddr + BitVec.ofNat lg (readCount is t (m + 1))) := by
  have hf := frozen_run h hp (m := m) (by omega)
  change (s.run is data (t + m)).mem ((s.run is data (t + m)).ctl.raddr +
    (s.run is data (t + m)).ctl.waddr + if (is (t + m)).reads then 1 else 0) = _
  rw [mem_run h hp (by omega), run_ctl, hf.waddr, raddr_run hs h hp (by omega), readCount,
    BitVec.ofNat_add, BitVec.add_comm (BitVec.ofNat lg _) (s.ctl.run is t).waddr, BitVec.add_assoc]
  cases (is (t + m)).reads <;> rfl

/-- So it is in the first clock, if another read went before. -/
theorem nxtMem_first (hlg : 0 < lg) (hs : Sound s.ctl) (hc : ∀ m, (is m).iCe = true)
    (h : Capture s.ctl is k t n) (hr : (is (t - 1)).reads = true) :
    (s.run is data t).nxtMem = (s.run is data t).mem (s.ctl.run is t).waddr := by
  have hlt := h.succ_lt
  obtain ⟨m, rfl⟩ : ∃ m, t = m + 1 := ⟨t - 1, by omega⟩
  rw [Nat.add_sub_cancel] at hr
  have hst := h.running_of_le hs (m := m) (by omega) (by omega)
  have hrec : (s.ctl.run is m).records (is m) = true := by simp [Control.records, hc, hst]
  have ha : (s.ctl.run is (m + 1)).waddr = (s.ctl.run is m).waddr + 1 := by
    change ((s.ctl.run is m).next (is m)).waddr = _
    rw [next_waddr (h.not_reset (by omega) (by omega)), if_pos hrec]
  have hne : (s.ctl.run is m).waddr + 1 ≠ (s.ctl.run is m).waddr := by
    intro he
    have h₁ : (1 : BitVec lg) = 0 := by grind
    have h₂ := congrArg BitVec.toNat h₁
    change 1 % 2 ^ lg = 0 % 2 ^ lg at h₂
    rw [Nat.mod_eq_of_lt (Nat.one_lt_two_pow (by omega)), Nat.zero_mod] at h₂
    cases h₂
  have hm : (s.run is data (m + 1)).mem =
      Function.update (s.run is data m).mem (s.ctl.run is m).waddr (data m) := by
    change (if (s.run is data m).ctl.records (is m) then _ else _) = _
    rw [run_ctl, if_pos hrec]
  change (s.run is data m).mem ((s.run is data m).ctl.raddr + (s.run is data m).ctl.waddr +
    if (is m).reads then 1 else 0) = _
  rw [hm, ha, Function.update_of_ne hne, run_ctl, h.raddr_eq hs (by omega) (by omega), hr,
    if_pos rfl]
  simp

/-- Without one it is a sample that has just been overwritten. -/
theorem nxtMem_stale (data : ℕ → BitVec 32) (h₀ : PowerUp s.ctl) (h : Capture s.ctl is k t n)
    (hr : (is (t - 1)).reads = false) :
    ∃ m, (s.ctl.recorded is (t - 1))[2 ^ lg - 1]? = some m ∧ (s.run is data t).nxtMem = data m := by
  have hs := h₀.sound
  have hlt := h.succ_lt
  obtain ⟨u, rfl⟩ : ∃ u, t = u + 1 := ⟨t - 1, by omega⟩
  rw [Nat.add_sub_cancel] at hr ⊢
  have hpos := Nat.two_pow_pos lg
  have hf : (s.run is data u).ctl.filled = 2 ^ lg := by
    rw [run_ctl]
    exact h.filled_eq hs (by omega) (by omega)
  obtain ⟨m, hc, hv⟩ := holds_run h₀ is data u (2 ^ lg - 1) (by omega)
  refine ⟨m, hc, ?_⟩
  have ho := oldest_first (s.run is data u).ctl.waddr hpos
  rw [Nat.sub_zero] at ho
  rw [ho, run_ctl] at hv
  change (s.run is data u).mem ((s.run is data u).ctl.raddr + (s.run is data u).ctl.waddr +
    if (is u).reads then 1 else 0) = _
  rw [run_ctl, h.raddr_eq hs (by omega) (by omega), hr, ← hv]
  simp

theorem readings_eq (hlg : 0 < lg) (hs : Sound s.ctl) (hc : ∀ m, (is m).iCe = true)
    (h : Capture s.ctl is k t n) (hp : Proper s.ctl is t) (hm : m ≤ n) :
    s.readings is data t m = (List.range (readCount is t m)).map fun j =>
      (s.run is data t).mem ((s.ctl.run is t).waddr + BitVec.ofNat lg j) := by
  induction m with
  | zero => rfl
  | succ m ih =>
    rw [State.readings, ih (by omega), readCount]
    cases hr : (is (t + m)).reads with
    | false => simp
    | true =>
      have hf := frozen_run h hp (m := m) (by omega)
      have hout : (s.run is data (t + m + 1)).oWbData = (s.run is data (t + m)).nxtMem := by
        have ha : (is (t + m)).iWbAddr = true := by
          rw [Input.reads, Bool.and_eq_true, Bool.and_eq_true] at hr
          exact hr.1.2
        change (if !(is (t + m)).iWbAddr then _ else if !(s.run is data (t + m)).ctl.drStopped then
          data (t + m) else (s.run is data (t + m)).nxtMem) = _
        rw [ha, run_ctl, hf.stopped]
        rfl
      have hnxt : (s.run is data (t + m)).nxtMem = (s.run is data t).mem
          ((s.ctl.run is t).waddr + BitVec.ofNat lg (readCount is t m)) := by
        cases m with
        | zero =>
          rw [Nat.add_zero, nxtMem_first hlg hs hc h (hp.reads hr)]
          simp [readCount]
        | succ m => exact nxtMem_run hs h hp (by omega)
      rw [if_pos rfl, if_pos rfl, List.range_succ, List.map_append, List.map_singleton, hout, hnxt]

/-- The whole memory, from the address written next on, is the last samples in their order. -/
theorem Holds.shown {clocks : List ℕ} (h : Holds s data clocks) (hf : s.ctl.filled = 2 ^ lg) :
    ((List.range (2 ^ lg)).map fun j => s.mem (s.ctl.waddr + BitVec.ofNat lg j)) =
      (((clocks.take (2 ^ lg)).reverse).map data) := by
  have hpos := Nat.two_pow_pos lg
  have hlen : 2 ^ lg ≤ clocks.length := by
    obtain ⟨m, hc, -⟩ := h (2 ^ lg - 1) (by omega)
    have := (List.getElem?_eq_some_iff.1 hc).1
    omega
  have htake : (clocks.take (2 ^ lg)).length = 2 ^ lg := by
    rw [List.length_take, Nat.min_eq_left hlen]
  apply List.ext_getElem
  · rw [List.length_map, List.length_range, List.length_map, List.length_reverse, htake]
  · intro j h₁ h₂
    rw [List.length_map, List.length_range] at h₁
    obtain ⟨m, hc, hv⟩ := h (2 ^ lg - 1 - j) (by omega)
    rw [oldest_first _ h₁] at hv
    obtain ⟨hb, hm⟩ := List.getElem?_eq_some_iff.1 hc
    simp only [List.getElem_map, List.getElem_range, List.getElem_reverse, List.getElem_take,
      htake]
    rw [hv, hm]

/-- The first of the readings. -/
theorem readings_head (s : State lg hb) (data : ℕ → BitVec 32) (hr : (is t).reads = true) (m : ℕ) :
    ∃ rest, s.readings is data t (m + 1) = (s.run is data (t + 1)).oWbData :: rest := by
  induction m with
  | zero => exact ⟨[], by simp [State.readings, hr]⟩
  | succ m ih =>
    obtain ⟨rest, he⟩ := ih
    rw [State.readings, he]
    exact ⟨_, rfl⟩

/-- A read in the first clock of a stop and none before it returns a sample too old. -/
theorem Capture.late (h₀ : PowerUp s.ctl) (hc : ∀ m, (is m).iCe = true)
    (h : Capture s.ctl is k t n) (hr : (is t).reads = true) (hr' : (is (t - 1)).reads = false) :
    ∃ data, s.readings is data t n ≠
      (((s.ctl.recorded is t).take (2 ^ lg)).reverse).map data := by
  have hs := h₀.sound
  have hlt := h.succ_lt
  have hpos := Nat.two_pow_pos lg
  have hn := h.pos
  -- the sample wanted first, and the one returned, are recorded one after the other
  have hrec : s.ctl.recorded is t = (t - 1) :: s.ctl.recorded is (t - 1) := by
    obtain ⟨u, rfl⟩ : ∃ u, t = u + 1 := ⟨t - 1, by omega⟩
    rw [Control.recorded, if_pos]
    · rfl
    · simp [Control.records, hc, h.running_of_le hs (m := u) (by omega) (by omega)]
  have hlen : 2 ^ lg < (s.ctl.recorded is t).length := by
    obtain ⟨m, hm, -⟩ := nxtMem_stale (fun _ => 0) h₀ h hr'
    have := (List.getElem?_eq_some_iff.1 hm).1
    rw [hrec, List.length_cons]
    omega
  have hold : (s.ctl.recorded is (t - 1))[2 ^ lg - 1]? = (s.ctl.recorded is t)[2 ^ lg]? := by
    rw [hrec]
    obtain ⟨v, hv⟩ : ∃ v, 2 ^ lg = v + 1 := ⟨2 ^ lg - 1, by omega⟩
    rw [hv, List.getElem?_cons_succ, Nat.add_sub_cancel]
  have hdata (data : ℕ → BitVec 32)
      (he : s.readings is data t n = (((s.ctl.recorded is t).take (2 ^ lg)).reverse).map data) :
      data (s.ctl.recorded is t)[2 ^ lg] = data (s.ctl.recorded is t)[2 ^ lg - 1] := by
    obtain ⟨u, rfl⟩ : ∃ u, n = u + 1 := ⟨n - 1, by omega⟩
    obtain ⟨rest, hrest⟩ := readings_head s data hr u
    obtain ⟨m, hm, hv⟩ := nxtMem_stale data h₀ h hr'
    rw [hold, List.getElem?_eq_getElem hlen, Option.some.injEq] at hm
    have ha : (is t).iWbAddr = true := by
      rw [Input.reads, Bool.and_eq_true, Bool.and_eq_true] at hr
      exact hr.1.2
    have hout : (s.run is data (t + 1)).oWbData = (s.run is data t).nxtMem := by
      change (if !(is t).iWbAddr then _ else if !(s.run is data t).ctl.drStopped then
        data t else (s.run is data t).nxtMem) = _
      rw [ha, run_ctl, h.stopped]
      rfl
    have htake : ((s.ctl.recorded is t).take (2 ^ lg)).length = 2 ^ lg := by
      rw [List.length_take, Nat.min_eq_left (Nat.le_of_lt hlen)]
    have hhead : ((s.run is data (t + 1)).oWbData :: rest)[0]? =
        ((((s.ctl.recorded is t).take (2 ^ lg)).reverse).map data)[0]? := by rw [← hrest, he]
    rw [hout, hv, ← hm, List.getElem?_map, List.getElem?_reverse (by rw [htake]; exact hpos), htake,
      List.getElem?_take, if_pos (by omega), Nat.sub_zero,
      List.getElem?_eq_getElem (show 2 ^ lg - 1 < _ by omega)] at hhead
    simpa using hhead
  refine ⟨fun m => if m = (s.ctl.recorded is t)[2 ^ lg - 1] then 1 else 0, fun he => ?_⟩
  have := hdata _ he
  have hne : (s.ctl.recorded is t)[2 ^ lg] ≠ (s.ctl.recorded is t)[2 ^ lg - 1] := by
    intro hx
    have := (nodup_recorded t).getElem_inj_iff.1 hx
    omega
  rw [if_neg hne, if_pos rfl] at this
  cases this

/-- A capture comes out right just when its stop is a proper one. -/
theorem shown_iff (hlg : 0 < lg) (s : State lg hb) (h₀ : PowerUp s.ctl)
    (hc : ∀ m, (is m).iCe = true) (h : Capture s.ctl is k t n) :
    Shown s is k t n ↔ Proper s.ctl is t := by
  have hs := h₀.sound
  have hlt := h.succ_lt
  have hn := h.pos
  obtain ⟨later, he, hl⟩ := h.recorded_eq hs hc h.before (Nat.le_refl t)
  have hcount := h.counter_toNat hs hc (m := t - 1) (by omega) (by omega)
  constructor
  · intro hsh
    have hst := hsh.stopped 1 hn
    change ((s.ctl.run is t).next (is t)).drStopped = true at hst
    have hu : (s.ctl.run is t).bwResetRequest = false := by
      cases hu : (s.ctl.run is t).bwResetRequest with
      | false => rfl
      | true => rw [(next_reset hu).2.2.1] at hst; cases hst
    rw [next_drStopped hu (h.triggered t h.before (Nat.le_refl t)), decide_eq_true_iff] at hst
    refine ⟨?_, hu, hst, fun hr => ?_⟩
    · obtain ⟨later', he', hl'⟩ := hsh.trigger
      have hlen := congrArg List.length (he.symm.trans he')
      rw [List.length_append, List.length_append] at hlen
      rw [BitVec.le_def]
      omega
    · by_contra hr'
      obtain ⟨data, hd⟩ := h.late h₀ hc hr (by simpa using hr')
      exact hd (hsh.samples data)
  · intro hp
    refine ⟨fun m hm => (frozen_run h hp hm).stopped, ⟨later, he, ?_⟩, fun data => ?_⟩
    · have hle := h.holdoff_le
      have hge := hp.count
      rw [BitVec.le_def] at hle hge
      omega
    · have hf : (s.run is data t).ctl.filled = 2 ^ lg := by
        rw [run_ctl]
        exact h.filled_eq hs h.before (Nat.le_refl t)
      have hh := (holds_run h₀ is data t).shown hf
      rw [run_ctl] at hh
      rw [readings_eq hlg hs hc h hp (Nat.le_refl n), h.count, hh]

theorem holdoff_run (hq : ∀ m, k < m → m < t → (is m).sets = false) (hm : k < m) (ht : m ≤ t) :
    (c.run is m).brHoldoff = (c.run is (k + 1)).brHoldoff := by
  induction m, hm using Nat.le_induction with
  | base => rfl
  | succ m hm ih =>
    rw [← ih (by omega)]
    change ((c.run is m).next (is m)).brHoldoff = _
    simp [Control.next, hq m (by omega) (by omega)]

theorem next_bwResetRequest (hr : c.bwResetRequest = false) (hw : i.sets = false) :
    (c.next i).bwResetRequest = false := by
  have h : (c.next i).brConfig = c.brConfig := by
    simp only [Control.next, hr]
    rw [Input.sets] at hw
    cases h₁ : i.iWbStb <;> cases h₂ : i.iWbAddr <;> cases h₃ : i.iWbWe <;>
      simp [h₁, h₂, h₃] at hw ⊢
  rw [Control.bwResetRequest, h]
  exact hr

/-- With the control register not written to, the one hold-off that does not last is the largest. -/
theorem Capture.proper_iff (hhb : 0 < hb) (hs : Sound c) (hc : ∀ m, (is m).iCe = true)
    (h : Capture c is k t n) (hq : ∀ m, k < m → m < t → (is m).sets = false) :
    Proper c is t ↔ (c.run is (k + 1)).brHoldoff ≠ BitVec.allOnes hb ∧
      ((is t).reads = true → (is (t - 1)).reads = true) := by
  have hlt := h.succ_lt
  obtain ⟨u, rfl⟩ : ∃ u, t = u + 1 := ⟨t - 1, by omega⟩
  have hle := h.holdoff_le
  rw [Nat.add_sub_cancel] at hle ⊢
  have hold := holdoff_run (c := c) hq (m := u) (by omega) (by omega)
  have hold' := holdoff_run (c := c) hq (m := u + 1) (by omega) (by omega)
  have hcount := h.counter_toNat hs hc (m := u) (by omega) (by omega)
  have hge : (c.run is u).counter ≤ (c.run is u).brHoldoff := by
    rw [BitVec.le_def, hcount]
    rcases Nat.eq_or_lt_of_le (show k + 1 ≤ u by omega) with rfl | hu
    · omega
    · obtain ⟨v, rfl⟩ : ∃ v, u = v + 1 := ⟨u - 1, by omega⟩
      have hrun := h.running (v + 1) (by omega) (by omega)
      change ((c.run is v).next (is v)).drStopped = false at hrun
      rw [next_drStopped (h.not_reset (by omega) (by omega)) (h.triggered v (by omega) (by omega)),
        decide_eq_false_iff_not, BitVec.le_def,
        h.counter_toNat hs hc (m := v) (by omega) (by omega),
        holdoff_run (c := c) hq (m := v) (by omega) (by omega)] at hrun
      rw [hold]
      omega
  have heq : (c.run is u).counter = (c.run is (k + 1)).brHoldoff := by
    rw [← hold]
    exact BitVec.le_antisymm hge hle
  have hu : (c.run is u).bwResetRequest = false := h.not_reset (by omega) (by omega)
  have hnext : (c.run is (u + 1)).counter = (c.run is (k + 1)).brHoldoff + 1 := by
    rw [← heq]
    exact next_counter hu (hc u) (h.triggered u (by omega) (by omega))
      (h.running u (by omega) (by omega))
  -- one more than the largest is zero
  have hreach : (c.run is (u + 1)).brHoldoff ≤ (c.run is (u + 1)).counter ↔
      (c.run is (k + 1)).brHoldoff ≠ BitVec.allOnes hb := by
    rw [hold', hnext, BitVec.le_def, BitVec.toNat_add, ne_eq, ← BitVec.toNat_inj,
      BitVec.toNat_allOnes]
    have hlt := (c.run is (k + 1)).brHoldoff.isLt
    have h2 : 1 < 2 ^ hb := Nat.one_lt_two_pow (by omega)
    have h1 : (1 : BitVec hb).toNat = 1 := by
      change 1 % 2 ^ hb = 1
      exact Nat.mod_eq_of_lt h2
    rw [h1]
    constructor
    · intro hl he
      rw [he, Nat.sub_add_cancel (by omega), Nat.mod_self] at hl
      omega
    · intro hne
      rw [Nat.mod_eq_of_lt (by omega)]
      omega
  constructor
  · exact fun hp => ⟨hreach.1 hp.reached, hp.reads⟩
  · rintro ⟨hne, hr⟩
    exact ⟨hge, next_bwResetRequest hu (hq u (by omega) (by omega)), hreach.2 hne, hr⟩

/-- Everything zero. -/
def powerUp : State 2 2 where
  ctl := ⟨0, 0, false, false, 0, false, 0, 0, false, false⟩
  mem _ := 0
  nxtMem := 0
  oWbData := 0

theorem powerUp_ctl : PowerUp powerUp.ctl := by constructor <;> rfl

/-- The hold-off is set, the trigger comes when the memory is full, and the data register is
read four times. -/
def inputs (holdoff : BitVec 32) (k : ℕ) : Input where
  iCe := true
  iTrigger := k == 5
  iWbCyc := true
  iWbStb := k == 0 || 11 ≤ k
  iWbWe := k == 0
  iWbAddr := k != 0
  iWbData := 0x80000000 + holdoff

theorem Capture.of_lt (h₁ : (c.run is k).drTriggered = false)
    (h₂ : ∀ m < t + 1, k < m → (c.run is m).drTriggered = true)
    (h₃ : ∀ m < t, k < m → (c.run is m).drStopped = false) (h₄ : k < t)
    (h₅ : (c.run is t).drStopped = true) (h₆ : ∀ m < n, (is (t + m)).writes = false)
    (h₇ : readCount is t n = 2 ^ lg) : Capture c is k t n :=
  ⟨h₁, fun m hk ht => h₂ m (by omega) hk, fun m hk ht => h₃ m ht hk, h₄, h₅, h₆, h₇⟩

theorem capture_two : Capture powerUp.ctl (inputs 2) 5 9 6 := by
  apply Capture.of_lt <;> decide +kernel

theorem capture_three : Capture powerUp.ctl (inputs 3) 5 10 5 := by
  apply Capture.of_lt <;> decide +kernel

theorem shown_two : Shown powerUp (inputs 2) 5 9 6 := by
  apply (shown_iff (by decide) powerUp powerUp_ctl (fun _ => rfl) capture_two).2
  constructor <;> decide +kernel

/-- With the largest hold-off the counter goes round, and the scope goes on. -/
theorem not_shown_three : ¬ ∀ (s : State 2 2) (is : ℕ → Input) (k t n : ℕ), PowerUp s.ctl →
    (∀ m, (is m).iCe = true) → Capture s.ctl is k t n → Shown s is k t n := by
  intro h
  have hs := (h powerUp (inputs 3) 5 10 5 powerUp_ctl (fun _ => rfl) capture_three).stopped 1
    (by decide)
  revert hs
  decide +kernel

end S6Soc.WbScope
