import Mathlib
import S6Soc.Clocked
import S6Soc.Ring

/-! The queue `teVMD2` of `wbubus`, for words of any kind and any size. -/
namespace S6Soc.WbuFifo
open Clocked

/-- `Ze` is where the next word goes, `af` where the first one is; `bf` and `cf` guard against
writing too much and reading too much. Offered is `Ue` while `Ve`. -/
structure State (n : ℕ) (α : Type) where
  Ye : BitVec n → α
  Ze : BitVec n
  af : BitVec n
  bf : Bool
  cf : Bool
  Ue : α
  Ve : Bool

/-- A reset, a word written, and a word read. -/
structure Input (α : Type) where
  Qe : Bool
  Re : Bool
  Se : α
  Te : Bool

variable {n : ℕ} {α : Type}

/-- Where a number is added to a pointer with no more said, the sum has 32 bits; it is taken in ℕ
here, which is the same for pointers of up to 31 bits. -/
def State.next (s : State n α) (i : Input α) : State n α where
  Ye := if i.Re then Function.update s.Ye s.Ze i.Se else s.Ye
  Ze := if i.Qe then 0 else if i.Re && (i.Te || !s.bf) then s.Ze + 1 else s.Ze
  af := if i.Qe then 0 else if i.Te && (i.Re || !s.cf) then s.af + 1 else s.af
  bf :=
    if i.Qe then false
    else if i.Te then s.bf && i.Re
    else if i.Re then s.Ze.toNat + 2 == s.af.toNat
    else s.bf || s.Ze.toNat + 1 == s.af.toNat
  cf :=
    if i.Qe then false
    else if i.Re then s.cf && i.Te
    else if i.Te then s.af.toNat + 1 == s.Ze.toNat
    else s.af == s.Ze
  Ue := s.Ye (if i.Te then s.af + 1 else s.af)
  Ve := if i.Qe then false else !i.Te && s.Ze != s.af || i.Te && s.Ze != s.af + 1

/-- How many words are held. -/
def State.count (s : State n α) : ℕ := Ring.count (2 ^ n) s.af.toNat s.Ze.toNat

/-- They, the first one first. -/
def State.held (s : State n α) : List α :=
  Ring.contents (2 ^ n) (fun k => s.Ye (BitVec.ofNat n k)) s.af.toNat s.Ze.toNat

/-- The queue, the words written and the words read, since the last reset. -/
structure Queue (n : ℕ) (α : Type) where
  fifo : State n α
  wrote : List α
  read : List α

def Queue.next (q : Queue n α) (i : Input α) : Queue n α where
  fifo := q.fifo.next i
  wrote := if i.Qe then [] else if i.Re then q.wrote ++ [i.Se] else q.wrote
  read := if i.Qe then [] else if i.Te then q.read ++ [q.fifo.Ue] else q.read

/-- A word is read only when one is offered, and none is written into a full queue, one place of
which stays empty, unless one is read. `Ve` has no initial value, but nothing is offered. -/
def queue (n : ℕ) (α : Type) : System (Queue n α) (Input α) where
  init q := q.fifo.Ze = 0 ∧ q.fifo.af = 0 ∧ q.fifo.bf = false ∧ q.fifo.cf = false ∧
    q.fifo.Ve = false ∧ q.wrote = [] ∧ q.read = []
  allowed q i := (i.Te → q.fifo.Ve) ∧ (i.Re → i.Te ∨ q.fifo.count + 1 < 2 ^ n)
  next := Queue.next

variable {s : State n α} {i : Input α} {q : Queue n α}

theorem toNat_lt (x : BitVec n) : x.toNat < 2 ^ n := x.isLt

theorem toNat_succ (x : BitVec n) : (x + 1).toNat = (x.toNat + 1) % 2 ^ n := by
  rw [BitVec.toNat_add, BitVec.ofNat_eq_ofNat, BitVec.toNat_ofNat, Nat.add_mod_mod]

theorem State.count_eq_zero : s.count = 0 ↔ s.Ze = s.af := by
  rw [State.count, Ring.count_eq_zero_iff (toNat_lt _) (toNat_lt _)]
  exact ⟨BitVec.eq_of_toNat_eq, congrArg _⟩

theorem State.length_held (s : State n α) : s.held.length = s.count := Ring.length_contents

/-- The queue with one word more. -/
theorem State.held_push (h : s.count + 1 < 2 ^ n) (x : α) :
    Ring.contents (2 ^ n) (fun k => Function.update s.Ye s.Ze x (BitVec.ofNat n k)) s.af.toNat
      (s.Ze + 1).toNat = s.held ++ [x] := by
  let cells k := s.Ye (BitVec.ofNat n k)
  have hpush : Ring.contents (2 ^ n) (Ring.store cells s.Ze.toNat [x]) s.af.toNat
      ((s.Ze.toNat + 1) % 2 ^ n) = s.held ++ [x] :=
    Ring.contents_push (toNat_lt s.af) (toNat_lt s.Ze) h (toNat_lt s.Ze)
  rw [← hpush, toNat_succ]
  refine List.map_congr_left fun k hk => ?_
  dsimp only
  have hlt : (s.af.toNat + k) % 2 ^ n < 2 ^ n := Nat.mod_lt _ (Nat.two_pow_pos n)
  generalize (s.af.toNat + k) % 2 ^ n = j at hlt
  by_cases hj : j = s.Ze.toNat
  · rw [hj, BitVec.ofNat_toNat, BitVec.setWidth_eq, Function.update_self]
    have hself : Ring.store cells s.Ze.toNat [x] (s.Ze.toNat + 0) = x :=
      Ring.store_getElem Nat.zero_lt_one
    exact hself.symm
  · rw [Function.update_of_ne fun h => hj (by rw [← h, BitVec.toNat_ofNat, Nat.mod_eq_of_lt hlt])]
    rcases Nat.lt_or_gt_of_ne hj with h | h
    · rw [Ring.store_of_lt h]
    · rw [Ring.store_of_ge h]

/-- The queue without its first word. -/
theorem State.held_pop (h : 0 < s.count) :
    s.held = s.Ye s.af :: Ring.contents (2 ^ n) (fun k => s.Ye (BitVec.ofNat n k)) (s.af + 1).toNat
      s.Ze.toNat := by
  rw [toNat_succ, State.held, Ring.contents_pop (n := 1) (toNat_lt _) (toNat_lt _) h (toNat_lt _)]
  simp [Ring.run]

theorem State.count_pop (h : 0 < s.count) :
    Ring.count (2 ^ n) (s.af + 1).toNat s.Ze.toNat + 1 = s.count := by
  rw [toNat_succ]
  exact Ring.count_pop (toNat_lt _) (toNat_lt _) h (toNat_lt _)

theorem State.count_push (h : s.count + 1 < 2 ^ n) :
    Ring.count (2 ^ n) s.af.toNat (s.Ze + 1).toNat = s.count + 1 := by
  rw [toNat_succ]
  exact Ring.count_push (toNat_lt _) (toNat_lt _) h (toNat_lt _)

theorem count_of_succ {head tail : BitVec n} (h : head.toNat + 1 = tail.toNat) :
    Ring.count (2 ^ n) tail.toNat head.toNat + 1 = 2 ^ n := by
  have hlt := toNat_lt tail
  rw [Ring.count_eq hlt (toNat_lt head), if_neg (by omega)]
  omega

/-- What the registers besides the memory say about it. -/
structure State.Sound (s : State n α) : Prop where
  full : s.bf → s.count + 1 = 2 ^ n
  empty : s.cf → s.count = 0
  offered : s.Ve → 0 < s.count ∧ s.Ue = s.Ye s.af

/-- A clock as it should be. -/
structure State.Clock (s : State n α) (i : Input α) : Prop where
  sound : (s.next i).Sound
  held : (if i.Te then [s.Ue] else []) ++ (s.next i).held = s.held ++ if i.Re then [i.Se] else []

theorem State.Sound.rest (h : s.Sound) (hQ : i.Qe = false) (hT : i.Te = false) (hR : i.Re = false) :
    s.Clock i := by
  have hZ : (s.next i).Ze = s.Ze := by simp [State.next, hQ, hR]
  have ha : (s.next i).af = s.af := by simp [State.next, hQ, hT]
  have hY : (s.next i).Ye = s.Ye := by simp [State.next, hR]
  have hcount : (s.next i).count = s.count := by rw [State.count, hZ, ha, State.count]
  refine ⟨⟨fun hb => ?_, fun hc => ?_, fun hv => ?_⟩, ?_⟩
  · have hb' : s.bf = true ∨ s.Ze.toNat + 1 = s.af.toNat := by
      simpa [State.next, hQ, hT, hR] using hb
    rw [hcount]
    rcases hb' with hb' | hb'
    · exact h.full hb'
    · exact count_of_succ hb'
  · have hc' : s.af = s.Ze := by simpa [State.next, hQ, hT, hR] using hc
    rw [hcount]
    exact State.count_eq_zero.mpr hc'.symm
  · have hv' : s.Ze ≠ s.af := by simpa [State.next, hQ, hT] using hv
    have hU : (s.next i).Ue = s.Ye s.af := by simp [State.next, hT]
    rw [hcount, hU, hY, ha]
    exact ⟨Nat.pos_of_ne_zero fun h0 => hv' (State.count_eq_zero.mp h0), rfl⟩
  · simp [State.held, hZ, ha, hY, hT, hR]

theorem State.Sound.reads (h : s.Sound) (hQ : i.Qe = false) (hT : i.Te) (hR : i.Re = false)
    (hv : s.Ve) : s.Clock i := by
  obtain ⟨hpos, hUe⟩ := h.offered hv
  have hcf : s.cf = false := by
    by_contra hc
    exact absurd (h.empty (by simpa using hc)) hpos.ne'
  have hZ : (s.next i).Ze = s.Ze := by simp [State.next, hQ, hR]
  have ha : (s.next i).af = s.af + 1 := by simp [State.next, hQ, hT, hcf]
  have hY : (s.next i).Ye = s.Ye := by simp [State.next, hR]
  have hne : (s.next i).count = 0 ↔ s.Ze = s.af + 1 := by rw [State.count_eq_zero, hZ, ha]
  refine ⟨⟨fun hb => ?_, fun hc => ?_, fun hv => ?_⟩, ?_⟩
  · simp [State.next, hQ, hT, hR] at hb
  · have hc' : s.af.toNat + 1 = s.Ze.toNat := by simpa [State.next, hQ, hT, hR] using hc
    refine hne.mpr (BitVec.eq_of_toNat_eq ?_)
    rw [toNat_succ, Nat.mod_eq_of_lt (hc' ▸ toNat_lt _), hc']
  · have hv' : s.Ze ≠ s.af + 1 := by simpa [State.next, hQ, hT] using hv
    have hU : (s.next i).Ue = s.Ye (s.af + 1) := by simp [State.next, hT]
    rw [hU, hY, ha]
    exact ⟨Nat.pos_of_ne_zero fun h0 => hv' (hne.mp h0), rfl⟩
  · rw [State.held_pop hpos, if_pos hT, hUe, hR]
    simp [State.held, hZ, ha, hY]

theorem State.Sound.writes (h : s.Sound) (hQ : i.Qe = false) (hT : i.Te = false) (hR : i.Re)
    (hroom : s.count + 1 < 2 ^ n) : s.Clock i := by
  have hbf : s.bf = false := by
    by_contra hb
    exact absurd (h.full (by simpa using hb)) hroom.ne
  have hZ : (s.next i).Ze = s.Ze + 1 := by simp [State.next, hQ, hR, hbf]
  have ha : (s.next i).af = s.af := by simp [State.next, hQ, hT]
  have hY : (s.next i).Ye = Function.update s.Ye s.Ze i.Se := by simp [State.next, hR]
  have hcount : (s.next i).count = s.count + 1 := by
    rw [State.count, hZ, ha, State.count_push hroom]
  refine ⟨⟨fun hb => ?_, fun hc => ?_, fun hv => ?_⟩, ?_⟩
  · have hb' : s.Ze.toNat + 2 = s.af.toNat := by simpa [State.next, hQ, hT, hR] using hb
    have hlt := toNat_lt s.af
    rw [State.count, hZ, ha]
    refine count_of_succ ?_
    rw [toNat_succ, Nat.mod_eq_of_lt (by omega)]
    omega
  · simp [State.next, hQ, hT, hR] at hc
  · have hv' : s.Ze ≠ s.af := by simpa [State.next, hQ, hT] using hv
    have hU : (s.next i).Ue = s.Ye s.af := by simp [State.next, hT]
    rw [hcount, hU, hY, ha, Function.update_of_ne (Ne.symm hv')]
    exact ⟨Nat.succ_pos _, rfl⟩
  · rw [State.held, hZ, ha, hY, State.held_push hroom, hT, hR]
    rfl

theorem State.Sound.both (h : s.Sound) (hQ : i.Qe = false) (hT : i.Te) (hR : i.Re)
    (hv : s.Ve) : s.Clock i := by
  obtain ⟨hpos, hUe⟩ := h.offered hv
  have hcf : s.cf = false := by
    by_contra hc
    exact absurd (h.empty (by simpa using hc)) hpos.ne'
  have hZ : (s.next i).Ze = s.Ze + 1 := by simp [State.next, hQ, hR, hT]
  have ha : (s.next i).af = s.af + 1 := by simp [State.next, hQ, hT, hR]
  have hY : (s.next i).Ye = Function.update s.Ye s.Ze i.Se := by simp [State.next, hR]
  -- the queue with its first word read and nothing written yet
  have hpop : ({ s with af := s.af + 1 } : State n α).count + 1 = s.count := State.count_pop hpos
  have hlt : s.count < 2 ^ n := Ring.count_lt (Nat.two_pow_pos n)
  have hroom : ({ s with af := s.af + 1 } : State n α).count + 1 < 2 ^ n := hpop ▸ hlt
  have hcount : (s.next i).count = s.count := by
    rw [State.count, hZ, ha]
    exact (State.count_push hroom).trans hpop
  refine ⟨⟨fun hb => ?_, fun hc => ?_, fun hv => ?_⟩, ?_⟩
  · rw [hcount]
    exact h.full (by simpa [State.next, hQ, hT, hR] using hb)
  · simp [State.next, hQ, hT, hR, hcf] at hc
  · have hv' : s.Ze ≠ s.af + 1 := by simpa [State.next, hQ, hT] using hv
    have hU : (s.next i).Ue = s.Ye (s.af + 1) := by simp [State.next, hT]
    rw [hcount, hU, hY, ha, Function.update_of_ne (Ne.symm hv')]
    exact ⟨hpos, rfl⟩
  · rw [State.held_pop hpos, State.held, hZ, ha, hY, if_pos hT, if_pos hR, hUe]
    exact congrArg (s.Ye s.af :: ·) (State.held_push hroom i.Se)

/-- Whatever is read and written, the queue is as it should be. -/
theorem State.Sound.clock (h : s.Sound) (hQ : i.Qe = false) (ht : i.Te → s.Ve)
    (hr : i.Re → i.Te ∨ s.count + 1 < 2 ^ n) : s.Clock i := by
  rcases Bool.eq_false_or_eq_true i.Te with hT | hT
  · rcases Bool.eq_false_or_eq_true i.Re with hR | hR
    · exact h.both hQ hT hR (ht hT)
    · exact h.reads hQ hT hR (ht hT)
  · rcases Bool.eq_false_or_eq_true i.Re with hR | hR
    · refine h.writes hQ hT hR ((hr hR).resolve_left ?_)
      rw [hT]
      exact Bool.false_ne_true
    · exact h.rest hQ hT hR

theorem State.Sound.reset (hQ : i.Qe) : (s.next i).Sound ∧ (s.next i).held = [] := by
  have hcount : (s.next i).count = 0 := State.count_eq_zero.mpr (by simp [State.next, hQ])
  refine ⟨⟨fun h => ?_, fun _ => hcount, fun h => ?_⟩, List.eq_nil_of_length_eq_zero ?_⟩
  · simp [State.next, hQ] at h
  · simp [State.next, hQ] at h
  · rw [State.length_held, hcount]

structure Queue.Kept (q : Queue n α) : Prop where
  sound : q.fifo.Sound
  words : q.wrote = q.read ++ q.fifo.held

theorem Queue.Kept.next (h : q.Kept) (ha : (queue n α).allowed q i) : (q.next i).Kept := by
  rcases Bool.eq_false_or_eq_true i.Qe with hQ | hQ
  · obtain ⟨hsound, hheld⟩ := State.Sound.reset (s := q.fifo) hQ
    refine ⟨hsound, ?_⟩
    simp only [Queue.next, hQ, if_true, hheld, List.append_nil]
  · obtain ⟨hsound, hheld⟩ := h.sound.clock hQ ha.1 ha.2
    refine ⟨hsound, ?_⟩
    have hw : (q.next i).wrote = q.wrote ++ if i.Re then [i.Se] else [] := by
      simp only [Queue.next, hQ, Bool.false_eq_true, if_false]
      split_ifs <;> simp
    have hr : (q.next i).read = q.read ++ if i.Te then [q.fifo.Ue] else [] := by
      simp only [Queue.next, hQ, Bool.false_eq_true, if_false]
      split_ifs <;> simp
    rw [hw, hr, h.words, List.append_assoc, List.append_assoc, ← hheld]
    rfl

theorem Queue.kept_init (h : (queue n α).init q) : q.Kept := by
  obtain ⟨hZ, ha, hb, hc, hv, hw, hr⟩ := h
  have hcount : q.fifo.count = 0 := State.count_eq_zero.mpr (hZ.trans ha.symm)
  have hheld : q.fifo.held = [] := List.eq_nil_of_length_eq_zero (by rw [State.length_held, hcount])
  refine ⟨⟨fun h => ?_, fun _ => hcount, fun h => ?_⟩, by rw [hw, hr, hheld]; rfl⟩
  · exact absurd (h.symm.trans hb) (by decide)
  · exact absurd (h.symm.trans hv) (by decide)

/-- Since the last reset, the words read are those written, in order, and the rest are held. -/
theorem wrote_eq_read (h : (queue n α).Reachable q) : q.wrote = q.read ++ q.fifo.held ∧
    (q.fifo.Ve → q.fifo.held.head? = some q.fifo.Ue) := by
  have hk : q.Kept := h.invariant (fun _ => Queue.kept_init) fun _ _ hu => hu.next
  refine ⟨hk.words, fun hv => ?_⟩
  obtain ⟨hpos, hU⟩ := hk.sound.offered hv
  rw [State.held_pop hpos, hU]
  rfl

instance Queue.decidableAllowed (q : Queue n α) (i : Input α) :
    Decidable ((queue n α).allowed q i) :=
  inferInstanceAs (Decidable ((i.Te → q.fifo.Ve) ∧ (i.Re → i.Te ∨ q.fifo.count + 1 < 2 ^ n)))

def emptyQueue : Queue 2 ℕ := ⟨⟨fun _ => 0, 0, 0, false, false, 0, false⟩, [], []⟩

/-- Of four places three are taken, then words go in and out around the end. -/
def aroundTheEnd : List (Input ℕ) :=
  [⟨false, true, 1, false⟩, ⟨false, true, 2, false⟩, ⟨false, true, 3, false⟩,
    ⟨false, true, 4, true⟩, ⟨false, true, 5, true⟩, ⟨false, false, 0, true⟩]

theorem wrote_eq_read_around : (aroundTheEnd.foldl (queue 2 ℕ).next emptyQueue).read = [1, 2, 3] ∧
    (aroundTheEnd.foldl (queue 2 ℕ).next emptyQueue).wrote =
      [1, 2, 3] ++ (aroundTheEnd.foldl (queue 2 ℕ).next emptyQueue).fifo.held := by
  have hr : (queue 2 ℕ).Reachable emptyQueue :=
    System.reachable_init ⟨rfl, rfl, rfl, rfl, rfl, rfl, rfl⟩
  have ha : (queue 2 ℕ).Admits emptyQueue aroundTheEnd := by decide
  have hread : (aroundTheEnd.foldl (queue 2 ℕ).next emptyQueue).read = [1, 2, 3] := by decide
  have h := (wrote_eq_read (hr.foldl ha)).1
  rw [hread] at h
  exact ⟨hread, h⟩

end S6Soc.WbuFifo
