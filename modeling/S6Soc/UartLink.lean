import S6Soc.Clocked
import S6Soc.TxUartLite
import S6Soc.RxUartLite

/-! A transmitter and a receiver on one line, built for the same number of clocks per baud: the
receiver strobes for each byte that the transmitter accepts. -/
namespace S6Soc.UartLink
open Clocked SerialLine

/-- `sent` are the bytes accepted so far, `received` those strobed. -/
structure Link where
  tx : TxUartLite.State
  rx : RxUartLite.State
  sent : List (BitVec 8)
  received : List (BitVec 8)

def Link.next (clocksPerBaud : BitVec 24) (l : Link) (i : TxUartLite.Input) : Link :=
  let rx := RxUartLite.step clocksPerBaud l.rx l.tx.oUartTx
  { tx := TxUartLite.step clocksPerBaud l.tx i
    rx := rx
    sent := if l.tx.accepts i then l.sent ++ [i.iData] else l.sent
    received := if rx.oWr then l.received ++ [rx.oData] else l.received }

/-- `i_wr` and `i_data` may be anything at any clock. -/
def link (clocksPerBaud : BitVec 24) : System Link TxUartLite.Input where
  init l := l.tx = TxUartLite.initial ∧ RxUartLite.Initial l.rx ∧ l.sent = [] ∧ l.received = []
  allowed _ _ := True
  next := Link.next clocksPerBaud

/-- The byte on the line, until the receiver has strobed for it. -/
def pending (c a : ℕ) (b : BitVec 8) : List (BitVec 8) :=
  if a < RxUartLite.latency c then [b] else []

/-- `b` was accepted `a` clocks ago, and the transmitter is not through with it. -/
structure Frames (clocksPerBaud : BitVec 24) (b : BitVec 8) (a : ℕ) (l : Link) : Prop where
  pos : 0 < a
  tx : (∃ i j, a = i * clocksPerBaud.toNat + j + 1 ∧ TxUartLite.Sends clocksPerBaud b i j l.tx) ∨
    a = 10 * clocksPerBaud.toNat + 1 ∧ TxUartLite.Idle l.tx ∧ l.tx.rBusy = true
  sees : RxUartLite.Sees clocksPerBaud.toNat b a l.rx
  receives : RxUartLite.Receives clocksPerBaud.toNat b a l.rx
  order : l.sent = l.received ++ pending clocksPerBaud.toNat a b

/-- Nothing is on the line. -/
structure Rests (l : Link) : Prop where
  tx : TxUartLite.Idle l.tx
  rx : RxUartLite.Waits l.rx
  order : l.sent = l.received

/-- A clock after the start, the transmitter is busy and the receiver sees the line low. -/
structure Warms (l : Link) : Prop where
  tx : TxUartLite.Idle l.tx
  rBusy : l.tx.rBusy = true
  state : l.rx.state = RxUartLite.RXU_IDLE
  qUart : l.rx.qUart = true
  halfBaudTime : l.rx.halfBaudTime = false
  chgCounter : l.rx.chgCounter.toNat ≤ 1
  sent : l.sent = []
  received : l.received = []

inductive Carries (clocksPerBaud : BitVec 24) (l : Link) : Prop
  | starts (h : (link clocksPerBaud).init l)
  | warms (h : Warms l)
  | rests (h : Rests l)
  | frames (b : BitVec 8) (a : ℕ) (h : Frames clocksPerBaud b a l)

variable {clocksPerBaud : BitVec 24} {b : BitVec 8} {a : ℕ} {l : Link} {i : TxUartLite.Input}
  {is : List TxUartLite.Input}

theorem received_next : l.received <+: (l.next clocksPerBaud i).received := by
  simp only [Link.next]
  split_ifs
  · exact List.prefix_append _ _
  · exact List.prefix_refl _

theorem received_foldl : l.received <+: (is.foldl (Link.next clocksPerBaud) l).received := by
  induction is generalizing l with
  | nil => exact List.prefix_refl _
  | cons i is ih => exact received_next.trans ih

theorem Frames.not_accepts (h : Frames clocksPerBaud b a l) : l.tx.accepts i = false := by
  obtain ⟨_, _, -, hs⟩ | ⟨-, -, hb⟩ := h.tx
  · exact hs.not_accepts
  · rw [TxUartLite.State.accepts, hb, Bool.not_true, Bool.and_false]

theorem Frames.line (h : Frames clocksPerBaud b a l) (hc : 0 < clocksPerBaud.toNat) :
    l.tx.oUartTx = wave clocksPerBaud.toNat b a := by
  obtain ⟨i, j, rfl, hs⟩ | ⟨rfl, hi, -⟩ := h.tx
  · have hj := hs.clock_lt
    rw [hs.oUartTx, wave_eq (i := i) (by omega) (by rw [Nat.succ_mul]; omega)]
  · rw [hi.oUartTx, wave_stop hc (by omega)]

theorem pending_one (b : BitVec 8) : pending clocksPerBaud.toNat 1 b = [b] := by
  rw [pending, RxUartLite.latency, if_pos (by omega)]

/-- The receiver strobes for the byte on the line when it is due, and never otherwise. -/
theorem Frames.order_next (h : Frames clocksPerBaud b a l)
    (hr : RxUartLite.Receives clocksPerBaud.toNat b (a + 1) (l.next clocksPerBaud i).rx) :
    (l.next clocksPerBaud i).sent =
      (l.next clocksPerBaud i).received ++ pending clocksPerBaud.toNat (a + 1) b := by
  obtain ⟨hw, hd⟩ := hr.strobes
  have hsent : (l.next clocksPerBaud i).sent = l.sent := if_neg (by rw [h.not_accepts]; simp)
  rw [hsent, h.order, pending, pending]
  by_cases hl : a + 1 = RxUartLite.latency clocksPerBaud.toNat
  · have hrec : (l.next clocksPerBaud i).received = l.received ++ [b] := by
      rw [← hd hl]
      exact if_pos (hw.mpr hl)
    rw [hrec, if_pos (by omega), if_neg (by omega), List.append_nil]
  · have hrec : (l.next clocksPerBaud i).received = l.received :=
      if_neg fun h => hl (hw.mp h)
    rw [hrec]
    rcases Nat.lt_or_ge a (RxUartLite.latency clocksPerBaud.toNat) with hlt | hge
    · rw [if_pos hlt, if_pos (by omega)]
    · rw [if_neg (by omega), if_neg (by omega)]

/-- The byte goes on, or the line is at rest again and the receiver has strobed. -/
theorem Frames.next (h : Frames clocksPerBaud b a l) (hc : 5 ≤ clocksPerBaud.toNat) :
    (l.next clocksPerBaud i).sent = l.sent ∧
    (Frames clocksPerBaud b (a + 1) (l.next clocksPerBaud i) ∨
      Rests (l.next clocksPerBaud i)) := by
  have hrx : (l.next clocksPerBaud i).rx =
      RxUartLite.step clocksPerBaud l.rx (wave clocksPerBaud.toNat b a) := by
    rw [← h.line (by omega)]
    rfl
  have hsees : RxUartLite.Sees clocksPerBaud.toNat b (a + 1) (l.next clocksPerBaud i).rx := by
    rw [hrx]
    exact h.sees.step
  have hreceives : RxUartLite.Receives clocksPerBaud.toNat b (a + 1)
      (l.next clocksPerBaud i).rx := by
    rw [hrx]
    exact h.receives.step h.sees h.pos (by omega)
  have horder := h.order_next hreceives
  refine ⟨if_neg (by rw [h.not_accepts]; simp), ?_⟩
  obtain ⟨m, j, rfl, hs⟩ | ⟨rfl, hi, hb⟩ := h.tx
  · left
    refine ⟨Nat.succ_pos _, ?_, hsees, hreceives, horder⟩
    rcases Nat.lt_or_ge (j + 1) clocksPerBaud.toNat with hj | hj
    · exact .inl ⟨m, j + 1, by omega, hs.stays hj⟩
    · have hj := le_antisymm hs.clock_lt hj
      rcases Nat.lt_or_ge m 9 with hm | hm
      · exact .inl ⟨m + 1, 0, by rw [Nat.succ_mul]; omega, hs.next hj hm (by omega)⟩
      · obtain rfl : m = 9 := le_antisymm hs.symbol_le hm
        exact .inr ⟨by omega, hs.ends hj⟩
  · right
    have hlat : RxUartLite.latency clocksPerBaud.toNat ≤ 10 * clocksPerBaud.toNat + 1 + 1 := by
      rw [RxUartLite.latency]
      omega
    refine ⟨hi.stays h.not_accepts, hreceives.waits hsees (by omega) hlat, ?_⟩
    rw [horder, pending, if_neg (by omega), List.append_nil]

/-- A byte is accepted, or the line stays at rest. -/
theorem Rests.next (h : Rests l) (hc : 2 ≤ clocksPerBaud.toNat) :
    Carries clocksPerBaud (l.next clocksPerBaud i) := by
  have hrx : (l.next clocksPerBaud i).rx = RxUartLite.step clocksPerBaud l.rx true := by
    rw [← h.tx.oUartTx]
    rfl
  obtain ⟨hw, ho⟩ := h.rx.stays clocksPerBaud
  rw [← hrx] at hw ho
  have hrec : (l.next clocksPerBaud i).received = l.received := if_neg (by
    change ¬ (l.next clocksPerBaud i).rx.oWr = true
    rw [ho]
    exact Bool.false_ne_true)
  cases ha : l.tx.accepts i with
  | false =>
    refine .rests ⟨h.tx.stays ha, hw, ?_⟩
    rw [hrec, ← h.order]
    exact if_neg (by rw [ha]; exact Bool.false_ne_true)
  | true =>
    obtain ⟨hs, hr⟩ := h.rx.starts (c := clocksPerBaud.toNat) (b := i.iData) clocksPerBaud
    rw [← hrx] at hs hr
    refine .frames i.iData 1 ⟨Nat.one_pos, .inl ⟨0, 0, by omega, h.tx.accepts ha hc⟩, hs, hr, ?_⟩
    rw [hrec, pending_one, ← h.order]
    exact if_pos ha

/-- It takes six clocks per baud that the low line at the start is no start bit. -/
theorem warms_of_init (h : (link clocksPerBaud).init l) (hc : 4 ≤ clocksPerBaud.toNat) :
    Warms (l.next clocksPerBaud i) := by
  obtain ⟨htx, hrx, hsent, hrec⟩ := h
  have ha : l.tx.accepts i = false := by
    rw [TxUartLite.State.accepts, htx]
    exact Bool.and_false _
  have hidle : TxUartLite.Idle l.tx := by
    rw [htx]
    exact TxUartLite.idle_initial
  obtain ⟨ho, hst⟩ := RxUartLite.idle_step clocksPerBaud l.tx.oUartTx hrx.state
  refine ⟨hidle.stays ha, ?_, ?_, hidle.oUartTx, ?_, ?_, ?_, ?_⟩
  · simp [Link.next, TxUartLite.step, htx, TxUartLite.initial]
  · refine hst.trans ?_
    rw [hrx.halfBaudTime, Bool.and_false]
    rfl
  · have hh : (RxUartLite.halfBaud clocksPerBaud).toNat = clocksPerBaud.toNat / 2 - 1 :=
      RxUartLite.toNat_halfBaud (by omega)
    simp only [Link.next, RxUartLite.step, hrx.ckUart, hrx.chgCounter, Bool.not_false,
      Bool.true_and]
    refine decide_eq_false fun hle => ?_
    rw [BitVec.le_def, hh] at hle
    change _ ≤ 0 at hle
    omega
  · simp only [Link.next, RxUartLite.step, hrx.qqUart, hrx.ckUart, hrx.chgCounter]
    decide
  · exact (if_neg (by rw [ha]; exact Bool.false_ne_true)).trans hsent
  · refine (if_neg ?_).trans hrec
    rw [ho]
    exact Bool.false_ne_true

theorem Warms.next (h : Warms l) (hc : 6 ≤ clocksPerBaud.toNat) :
    Rests (l.next clocksPerBaud i) := by
  have ha : l.tx.accepts i = false := by
    rw [TxUartLite.State.accepts, h.rBusy]
    exact Bool.and_false _
  obtain ⟨ho, hst⟩ := RxUartLite.idle_step clocksPerBaud l.tx.oUartTx h.state
  refine ⟨h.tx.stays ha, ⟨?_, h.tx.oUartTx, h.qUart, fun _ => ?_⟩, ?_⟩
  · refine hst.trans ?_
    rw [h.halfBaudTime, Bool.and_false]
    rfl
  · have hh : (RxUartLite.halfBaud clocksPerBaud).toNat = clocksPerBaud.toNat / 2 - 1 :=
      RxUartLite.toNat_halfBaud (by omega)
    have hchg := h.chgCounter
    refine Bool.and_eq_false_iff.mpr (.inr (decide_eq_false fun hle => ?_))
    rw [BitVec.le_def, hh] at hle
    omega
  · have hsent : (l.next clocksPerBaud i).sent = l.sent :=
      if_neg (by rw [ha]; exact Bool.false_ne_true)
    have hrec : (l.next clocksPerBaud i).received = l.received := by
      refine if_neg ?_
      rw [ho]
      exact Bool.false_ne_true
    rw [hsent, hrec, h.sent, h.received]

theorem Carries.next (h : Carries clocksPerBaud l) (hc : 6 ≤ clocksPerBaud.toNat) :
    Carries clocksPerBaud (l.next clocksPerBaud i) := by
  cases h with
  | starts h => exact .warms (warms_of_init h (by omega))
  | warms h => exact .rests (h.next hc)
  | rests h => exact h.next (by omega)
  | frames b a h =>
    obtain ⟨-, hf | hr⟩ := h.next (i := i) (by omega)
    · exact .frames b (a + 1) hf
    · exact .rests hr

/-- The byte on the line is strobed when it is due. -/
theorem Frames.delivers (h : Frames clocksPerBaud b a l) (hc : 6 ≤ clocksPerBaud.toNat)
    (hn : RxUartLite.latency clocksPerBaud.toNat ≤ a + is.length) :
    l.sent <+: (is.foldl (Link.next clocksPerBaud) l).received := by
  induction is generalizing a l with
  | nil =>
    rw [h.order, pending, if_neg (by simpa using hn), List.append_nil]
    exact List.prefix_refl _
  | cons i is ih =>
    obtain ⟨hsent, hf | hr⟩ := h.next (i := i) (by omega)
    · rw [← hsent]
      exact ih hf (by rw [List.length_cons] at hn; omega)
    · rw [← hsent, hr.order]
      exact received_foldl

/-- For any inputs at any clocks: the bytes strobed are those accepted, in order, all but the last
at most; all of them while the transmitter takes bytes; and each at most `latency` clocks after it
was accepted. -/
theorem received_sent (hc : 6 ≤ clocksPerBaud.toNat) (h : (link clocksPerBaud).Reachable l) :
    l.received <+: l.sent ∧ l.sent.length ≤ l.received.length + 1 ∧
    (l.tx.oBusy = false → l.received = l.sent) ∧
    ∀ is : List TxUartLite.Input, RxUartLite.latency clocksPerBaud.toNat ≤ is.length →
      l.sent <+: (is.foldl (Link.next clocksPerBaud) l).received := by
  have hl : Carries clocksPerBaud l :=
    h.invariant (fun _ => .starts) fun _ _ hl _ => hl.next hc
  have hall : l.sent = l.received → l.received <+: l.sent ∧
      l.sent.length ≤ l.received.length + 1 ∧ (l.tx.oBusy = false → l.received = l.sent) ∧
      ∀ is : List TxUartLite.Input, RxUartLite.latency clocksPerBaud.toNat ≤ is.length →
        l.sent <+: (is.foldl (Link.next clocksPerBaud) l).received := by
    intro he
    rw [he]
    exact ⟨List.prefix_refl _, Nat.le_succ _, fun _ => rfl, fun _ _ => received_foldl⟩
  cases hl with
  | starts h => exact hall (h.2.2.1.trans h.2.2.2.symm)
  | warms h => exact hall (h.sent.trans h.received.symm)
  | rests h => exact hall h.order
  | frames b a h =>
    refine ⟨⟨_, h.order.symm⟩, ?_, fun hb => ?_, fun is hn => h.delivers hc (by omega)⟩
    · rw [h.order, List.length_append, pending]
      split_ifs
      · exact le_refl _
      · exact Nat.le_succ _
    · obtain ⟨_, _, -, hs⟩ | ⟨-, -, ht⟩ := h.tx
      · rw [TxUartLite.State.oBusy, hs.rBusy] at hb
        cases hb
      · rw [TxUartLite.State.oBusy, ht] at hb
        cases hb

instance (l : Link) (i : TxUartLite.Input) : Decidable ((link clocksPerBaud).allowed l i) :=
  .isTrue trivial

def poweredUp : Link where
  tx := TxUartLite.initial
  rx := ⟨false, false, false, 0, false, RxUartLite.RXU_IDLE, 0, false, 0, 0, false⟩
  sent := []
  received := []

theorem init_poweredUp : (link clocksPerBaud).init poweredUp :=
  ⟨rfl, ⟨rfl, rfl, rfl, rfl, rfl, rfl, rfl, rfl⟩, rfl, rfl⟩

/-- Two bytes, the second as soon as the transmitter takes it, at six clocks per baud. -/
def backToBack : List TxUartLite.Input :=
  [⟨false, 0⟩, ⟨false, 0⟩, ⟨true, 0x55⟩] ++ List.replicate 80 ⟨true, 0xa3⟩

theorem received_sent_backToBack :
    (backToBack.foldl (Link.next 6) poweredUp).received = [0x55] ∧
    (backToBack.foldl (Link.next 6) poweredUp).sent = [0x55, 0xa3] ∧
    (backToBack.foldl (Link.next 6) poweredUp).sent <+:
      ((List.replicate 62 ⟨false, 0⟩).foldl (Link.next 6)
        (backToBack.foldl (Link.next 6) poweredUp)).received := by
  have hr : (link 6).Reachable (backToBack.foldl (Link.next 6) poweredUp) :=
    (System.reachable_init (M := link 6) init_poweredUp).foldl (by decide +kernel)
  refine ⟨by decide +kernel, by decide +kernel, (received_sent (by decide) hr).2.2.2 _ ?_⟩
  decide

/-- With five clocks per baud, the receiver takes the low line at the start for a start bit. -/
example : ((List.replicate 60 ⟨false, 0⟩).foldl (Link.next 5) poweredUp).received ≠ [] := by
  decide +kernel

end S6Soc.UartLink
