import Mathlib
import S6Soc.Clocked

/-! The reloadable timer: what a write makes of the countdown that was running. -/
namespace S6Soc.ZipTimer
open Clocked

variable {bw vw : ℕ}

structure State (vw : ℕ) where
  rRunning : Bool
  rAutoReload : Bool
  rReloadValue : BitVec vw
  rValue : BitVec vw
  oInt : Bool
  oWbAck : Bool
  deriving DecidableEq

structure Input (bw : ℕ) where
  iRst : Bool
  iCe : Bool
  iWbCyc : Bool
  iWbStb : Bool
  iWbWe : Bool
  iWbData : BitVec bw
  deriving DecidableEq

def Input.wbWrite (i : Input bw) : Bool := i.iWbCyc && i.iWbStb && i.iWbWe

/-- The bits of the word that are counted down. -/
def Input.count (i : Input bw) (vw : ℕ) : BitVec vw := i.iWbData.extractLsb' 0 vw

def Input.autoReload (i : Input bw) : Bool := i.iWbData.getLsbD (bw - 1)

def State.step (s : State vw) (i : Input bw) : State vw where
  rRunning :=
    if i.iRst then false
    else if i.wbWrite then i.count vw ≠ BitVec.ofNat vw 0
    else if s.oInt && !s.rAutoReload then false
    else s.rRunning
  rAutoReload := if i.wbWrite then i.autoReload else s.rAutoReload
  rReloadValue :=
    if i.wbWrite && i.autoReload && i.count vw ≠ BitVec.ofNat vw 0 then i.count vw
    else s.rReloadValue
  rValue :=
    if i.wbWrite then i.count vw
    else if s.rRunning && i.iCe && !s.oInt then s.rValue + BitVec.allOnes vw
    else if s.rRunning && s.rAutoReload && s.oInt then s.rReloadValue
    else s.rValue
  oInt :=
    if i.iRst then false
    else if i.iCe then s.rRunning && s.rValue == BitVec.ofNat vw 1
    else false
  oWbAck := i.iWbCyc && i.iWbStb

/-- What the bus reads, where all but the top bit is counted (`VW = BW - 1`). -/
def State.oWbData (s : State vw) : BitVec (vw + 1) := BitVec.cons s.rAutoReload s.rValue

/-- `i_ce` held high and no reset; `r_reload_value` has no initial value. -/
def timer (bw vw : ℕ) : System (State vw) (Input bw) where
  init s := s.rRunning = false ∧ s.rAutoReload = false ∧ s.rValue = BitVec.ofNat vw 0 ∧
    s.oInt = false ∧ s.oWbAck = false
  allowed _ i := i.iCe ∧ i.iRst = false
  next := State.step

/-- The timer while nothing is written. -/
def unwritten (bw vw : ℕ) : System (State vw) (Input bw) :=
  (timer bw vw).restrict fun _ i => i.wbWrite = false

/-- Whether the interrupt is high `k` clocks after the write `w`. -/
def Interrupts (vw : ℕ) (w : Input bw) (k : ℕ) : Prop :=
  w.count vw ≠ BitVec.ofNat vw 0 ∧
    if w.autoReload then (w.count vw).toNat + 1 ∣ k else k = (w.count vw).toNat + 1

/-- The write `w` replaces what was running in `s`: while no other follows, the interrupt is
that of the count written alone. -/
def Replaces (s : State vw) (w : Input bw) : Prop :=
  ∀ is t, (unwritten bw vw).Run (s.step w) is t → (t.oInt ↔ Interrupts vw w (is.length + 1))

/-- On the last tick of a countdown. -/
def State.expiring (s : State vw) : Bool := s.rRunning && s.rValue == BitVec.ofNat vw 1

variable {s t : State vw} {w i : Input bw}

/-- `r` clocks after the count `n` was loaded. -/
structure Counting (s : State vw) (auto : Bool) (n r : ℕ) : Prop where
  running : s.rRunning
  autoReload : s.rAutoReload = auto
  reload : auto → s.rReloadValue.toNat = n
  left : r ≤ n
  value : s.rValue.toNat = n - r
  int : s.oInt = decide (r = n)

/-- Never again, until the next write. -/
def Idle (s : State vw) : Prop := s.rRunning = false ∧ s.oInt = false

theorem idle_step (h : Idle s) (hi : (unwritten bw vw).allowed s i) : Idle (s.step i) := by
  obtain ⟨⟨hce, hrst⟩, hw⟩ := hi
  obtain ⟨hr, -⟩ := h
  exact ⟨by simp [State.step, hr, hrst, hw], by simp [State.step, hr]⟩

theorem idle_write (hw : w.wbWrite) (h0 : w.count vw = BitVec.ofNat vw 0)
    (he : s.expiring = false) : Idle (s.step w) := by
  rw [State.expiring] at he
  exact ⟨by simp [State.step, hw, h0], by simp [State.step, he]⟩

theorem count_pos (h0 : w.count vw ≠ BitVec.ofNat vw 0) : 0 < (w.count vw).toNat :=
  Nat.pos_of_ne_zero fun h => h0 (BitVec.eq_of_toNat_eq (by simpa using h))

theorem counting_write (hi : (timer bw vw).allowed s w) (hw : w.wbWrite)
    (h0 : w.count vw ≠ BitVec.ofNat vw 0)
    (he : s.expiring = false) : Counting (s.step w) w.autoReload (w.count vw).toNat 0 := by
  obtain ⟨hce, hrst⟩ := hi
  have hpos := count_pos h0
  rw [State.expiring] at he
  refine ⟨?_, ?_, fun ha => ?_, Nat.zero_le _, ?_, ?_⟩
  · simp [State.step, hw, h0, hrst]
  · simp [State.step, hw]
  · simp [State.step, hw, ha, h0]
  · simp [State.step, hw]
  · simp [State.step, he, hpos.ne]

theorem toNat_decrement {v : BitVec vw} (h : 0 < v.toNat) :
    (v + BitVec.allOnes vw).toNat = v.toNat - 1 := by
  have := v.isLt
  rw [BitVec.toNat_add, BitVec.toNat_allOnes, show v.toNat + (2 ^ vw - 1) = v.toNat - 1 + 2 ^ vw by
    omega, Nat.add_mod_right, Nat.mod_eq_of_lt (by omega)]

theorem eq_one_iff {v : BitVec vw} {m : ℕ} (hm : 0 < m) (hlt : m < 2 ^ vw) :
    v = BitVec.ofNat vw 1 ↔ v.toNat = 1 := by
  have h1 : (BitVec.ofNat vw 1).toNat = 1 := by
    rw [BitVec.toNat_ofNat, Nat.mod_eq_of_lt (by omega)]
  rw [← BitVec.toNat_inj, h1]

variable {auto : Bool} {n r : ℕ}

/-- Before the end, a clock takes one off. -/
theorem counting_tick (h : Counting s auto n r) (hr : r < n) (hn : n < 2 ^ vw)
    (hi : (unwritten bw vw).allowed s i) : Counting (s.step i) auto n (r + 1) := by
  obtain ⟨⟨hce, hrst⟩, hw⟩ := hi
  have hint : s.oInt = false := by rw [h.int, decide_eq_false hr.ne]
  have hv := h.value
  refine ⟨?_, ?_, fun ha => ?_, hr, ?_, ?_⟩
  · simp [State.step, hrst, hw, hint, h.running]
  · simp [State.step, hw, h.autoReload]
  · simp [State.step, hw, h.reload ha]
  · simp only [State.step, hw, h.running, hce, hint, Bool.not_false, Bool.and_self, if_true,
      Bool.false_eq_true, if_false]
    rw [toNat_decrement (by omega)]
    omega
  · have h1 : s.rValue = BitVec.ofNat vw 1 ↔ s.rValue.toNat = 1 := eq_one_iff (by omega) hn
    simp only [State.step, hrst, hce, h.running, Bool.true_and, if_true, Bool.false_eq_true,
      if_false]
    rw [Bool.eq_iff_iff, beq_iff_eq, decide_eq_true_iff, h1]
    omega

/-- At the end, the count is loaded again or the timer stops. -/
theorem counting_expired (h : Counting s auto n n) (h0 : 0 < n) (hn : n < 2 ^ vw)
    (hi : (unwritten bw vw).allowed s i) :
    if auto then Counting (s.step i) auto n 0 else Idle (s.step i) := by
  obtain ⟨⟨hce, hrst⟩, hw⟩ := hi
  have hint : s.oInt = true := by rw [h.int, decide_eq_true rfl]
  have hv : s.rValue ≠ BitVec.ofNat vw 1 := by
    rw [Ne, eq_one_iff h0 hn, h.value]
    omega
  have hauto := h.autoReload
  cases auto with
  | true =>
    rw [if_pos rfl]
    refine ⟨?_, ?_, fun _ => ?_, Nat.zero_le _, ?_, ?_⟩
    · simp [State.step, hrst, hw, hauto, h.running]
    · simp [State.step, hw, hauto]
    · simp [State.step, hw, h.reload rfl]
    · simp [State.step, hw, hauto, hint, h.running, h.reload rfl]
    · simp [State.step, hrst, hv, h0.ne]
  | false =>
    rw [if_neg (by decide)]
    exact ⟨by simp [State.step, hrst, hw, hint, hauto], by simp [State.step, hv]⟩

/-- Where the countdown stands after `k` clocks. -/
def Stands (s : State vw) (auto : Bool) (n k : ℕ) : Prop :=
  if auto then Counting s auto n (k % (n + 1))
  else k ≤ n ∧ Counting s auto n k ∨ n < k ∧ Idle s

theorem succ_mod_succ (k n : ℕ) :
    (k + 1) % (n + 1) = if k % (n + 1) = n then 0 else k % (n + 1) + 1 := by
  have h : k % (n + 1) < n + 1 := Nat.mod_lt k n.succ_pos
  rw [← Nat.mod_add_mod]
  split
  · rename_i hk
    rw [hk, Nat.mod_self]
  · exact Nat.mod_eq_of_lt (by omega)

theorem stands_step {k : ℕ} (h : Stands s auto n k) (h0 : 0 < n) (hn : n < 2 ^ vw)
    (hi : (unwritten bw vw).allowed s i) : Stands (s.step i) auto n (k + 1) := by
  cases auto with
  | true =>
    rw [Stands, if_pos rfl] at h ⊢
    rw [succ_mod_succ]
    obtain hk | hk := h.left.lt_or_eq
    · rw [if_neg hk.ne]
      exact counting_tick h hk hn hi
    · rw [if_pos hk]
      rw [hk] at h
      exact counting_expired h h0 hn hi
  | false =>
    rw [Stands, if_neg (by decide)] at h ⊢
    obtain ⟨hk, hc⟩ | ⟨hk, hidle⟩ := h
    · obtain hk | rfl := hk.lt_or_eq
      · exact .inl ⟨hk, counting_tick hc hk hn hi⟩
      · exact .inr ⟨Nat.lt_succ_self _, by simpa using counting_expired hc h0 hn hi⟩
    · exact .inr ⟨hk.trans (Nat.lt_succ_self k), idle_step hidle hi⟩

theorem stands_run {is : List (Input bw)} (h : Stands s auto n 0) (h0 : 0 < n) (hn : n < 2 ^ vw)
    (hr : (unwritten bw vw).Run s is t) : Stands t auto n is.length := by
  induction hr with
  | nil => exact h
  | snoc _ hi ih =>
    rw [List.length_append]
    exact stands_step ih h0 hn hi

theorem stands_int {k : ℕ} (h : Stands s auto n k) :
    s.oInt ↔ if auto then n + 1 ∣ k + 1 else k + 1 = n + 1 := by
  cases auto with
  | true =>
    rw [Stands, if_pos rfl] at h
    rw [h.int, decide_eq_true_iff, if_pos rfl, Nat.dvd_iff_mod_eq_zero, succ_mod_succ]
    split <;> simp_all
  | false =>
    rw [Stands, if_neg (by decide)] at h
    rw [if_neg (by decide)]
    obtain ⟨hk, hc⟩ | ⟨hk, hidle⟩ := h
    · rw [hc.int, decide_eq_true_iff, Nat.add_right_cancel_iff]
    · rw [hidle.2]
      exact ⟨nofun, fun h => absurd h (by omega)⟩

/-- A write replaces the countdown exactly when it does not meet the countdown's last tick. -/
theorem replaces_iff (hi : (timer bw vw).allowed s w) (hw : w.wbWrite) :
    Replaces s w ↔ s.expiring = false := by
  constructor
  · intro h
    by_contra he
    rw [Bool.not_eq_false] at he
    have hint : (s.step w).oInt := by
      obtain ⟨hce, hrst⟩ := hi
      rw [State.expiring] at he
      simp [State.step, hrst, hce, he]
    obtain ⟨h0, hk⟩ := (h [] _ .nil).mp hint
    have hpos := count_pos h0
    split at hk
    · have := Nat.le_of_dvd Nat.one_pos hk
      omega
    · exact absurd hk (by simp; omega)
  · intro he is t hr
    by_cases h0 : w.count vw = BitVec.ofNat vw 0
    · have hidle : Idle t := hr.invariant (idle_write hw h0 he) fun _ _ => idle_step
      rw [hidle.2, Interrupts]
      exact ⟨nofun, fun h => absurd h0 h.1⟩
    · have hc := counting_write hi hw h0 he
      have hs : Stands (s.step w) w.autoReload (w.count vw).toNat 0 := by
        rw [Stands]
        split
        · rwa [Nat.zero_mod]
        · exact .inl ⟨Nat.zero_le _, hc⟩
      rw [stands_int (stands_run hs (count_pos h0) (BitVec.isLt _) hr), Interrupts]
      exact ⟨fun h => ⟨h0, h⟩, fun h => h.2⟩

def writing (data : BitVec 32) : Input 32 := ⟨false, true, true, true, true, data⟩

def silent : Input 32 := ⟨false, true, false, false, false, 0⟩

def powerUp : State 31 := ⟨false, false, 0, 0, false, false⟩

/-- A countdown of four, in its second clock. -/
def running : State 31 := [writing 4, silent].foldl State.step powerUp

theorem replaces_iff_running : running.rRunning = true ∧ running.rValue = 3 ∧
    Replaces running (writing 5) :=
  ⟨by decide, by decide, (replaces_iff ⟨rfl, rfl⟩ rfl).mpr (by decide)⟩

/-- A count of five, and a zero, written on the last tick of a countdown of two. -/
theorem expiring_not_replaced :
    let s := [writing 2, silent].foldl State.step powerUp
    (timer 32 31).Reachable s ∧ ¬ Replaces s (writing 5) ∧ ¬ Replaces s (writing 0) := by
  refine ⟨(System.reachable_init (M := timer 32 31) ⟨rfl, rfl, rfl, rfl, rfl⟩).foldl
    ⟨⟨rfl, rfl⟩, ⟨rfl, rfl⟩, trivial⟩, fun h => ?_, fun h => ?_⟩
  · exact absurd ((h [] _ .nil).mp (by decide)).2 (by decide)
  · exact absurd ((h [] _ .nil).mp (by decide)).1 (by decide)

end S6Soc.ZipTimer
