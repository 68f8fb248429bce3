import Mathlib
import S6Soc.KernelPass

/-! The serial port under `kernel_entry`: it is written only when it is empty, and every byte
received is pushed once. -/
namespace S6Soc.ZipOS
open Clocked Icontrol

variable {τ ι : Type} {s t : Board τ ι} {pic : Word} {r tick : Bool} {i : Clock τ ι}
  {a : Option Access}

/-- What going on from `s` to `t` with the access `a` means for the transmitter. -/
structure Sends (s t : Board τ ι) (a : Option Access) : Prop where
  bytes (bs : List (BitVec 8)) : bs ++ s.point.carries = s.handed →
    bs ++ (a.bind Access.uartWrite).toList ++ t.point.carries = t.handed
  ready : t.point.ready → s.point.ready ∨
    s.point.stale = false ∧ s.pic.rIntState.getLsbD 7
  cleared : t.point.stale = false → s.point.stale →
    ∃ data, a = some (.writePic data) ∧ data.getLsbD 7
  fresh : t.point.stale = false → a.bind Access.uartWrite = none
  write : a.bind Access.uartWrite ≠ none → s.point.ready

/-- The supervisor holds no byte, and the access is no write at `io_uart`. -/
theorem Follows.sends (h : Follows s t r tick) (hc : s.point.carries = [])
    (ha : a.bind Access.uartWrite = none)
    (hx : r → s.point.ready ∨ s.point.stale = false ∧ s.pic.rIntState.getLsbD 7)
    (hs : s.point.stale → ∃ data, a = some (.writePic data) ∧ data.getLsbD 7) : Sends s t a where
  bytes bs hb := by
    rw [hc, List.append_nil] at hb
    rw [ha, h.handed, hb]
    simp
  ready hr := hx (h.ready hr)
  cleared _ := hs
  fresh _ := ha
  write hw := absurd ha hw

/-- Only the point moves, and the access is no write at `io_uart`. -/
theorem sends_move {q : Point} (hc : q.carries = s.point.carries)
    (ha : a.bind Access.uartWrite = none)
    (hr : q.ready → s.point.ready ∨ s.point.stale = false ∧ s.pic.rIntState.getLsbD 7)
    (hs : q.stale = false → s.point.stale → ∃ data, a = some (.writePic data) ∧ data.getLsbD 7) :
    Sends s { s with point := q } a where
  bytes bs hb := by simpa [ha, hc] using hb
  ready := hr
  cleared := hs
  fresh _ := ha
  write hw := absurd ha hw

/-- The byte in hand is written. -/
theorem sends_write {q : Point} {ch : BitVec 8} (hc : s.point.carries = [ch])
    (hr : s.point.ready) (hq : q.carries = []) (hqr : q.ready = false) (hqs : q.stale) :
    Sends s { s with point := q } (some (.writeUart ch)) where
  bytes bs hb := by simpa [hc, hq, Access.uartWrite] using hb
  ready h := by simp [hqr] at h
  cleared h := by simp [hqs] at h
  fresh h := by simp [hqs] at h
  write _ := hr

theorem oProcBus_uartTx : s.pic.oProcBus.getLsbD 7 = s.pic.rIntState.getLsbD 7 :=
  getLsbD_oProcBus (by decide)

section
variable [DecidableEq τ] [DecidableEq ι]

theorem sends_user (hp : s.point = .user) : Sends s (s.resume i .user) i.user.access := by
  have hu : i.user.access.bind Access.uartWrite = none := by
    cases i.user <;> rfl
  have hc : (s.resume i .user).point.carries = [] ∧ (s.resume i .user).point.ready = false ∧
      (s.resume i .user).handed = s.handed := by
    simp only [Board.resume]
    cases i.user <;> simp [Point.carries, Point.ready, hp]
  refine ⟨fun bs h => ?_, by simp [hc.2.1], by simp [hp, Point.stale], fun _ => hu,
    fun h => absurd hu h⟩
  rw [hu, hc.1, hc.2.2, ← h]
  simp [hp, Point.carries]

theorem sends_resume {p : Point} (hp : s.point = p) (hu : p ≠ .user) :
    Sends s (s.resume i p) (s.access p) := by
  have hclear : ∃ data, some (Access.writePic INT_UARTTX) = some (.writePic data) ∧
      data.getLsbD 7 := ⟨INT_UARTTX, rfl, by decide⟩
  have hread : ∀ {x : Word}, x &&& INT_UARTTX ≠ 0 → x = s.pic.oProcBus →
      s.pic.rIntState.getLsbD 7 := by
    rintro x hx rfl
    rw [← oProcBus_uartTx]
    exact and_uartTx.mp hx
  cases p with
  | user => exact absurd rfl hu
  | ksetup =>
    refine sends_move (by rw [hp]; rfl) rfl (by simp [Point.ready]) (by simp [Point.stale])
  | start =>
    refine (follows_message? (r := false)).sends (by rw [hp]; rfl) rfl (by simp) fun _ => ?_
    refine ⟨_, rfl, ?_⟩
    rw [BitVec.getLsbD_or]
    exact Bool.or_true _
  | txClear ch str =>
    refine sends_move (by rw [hp]; rfl) rfl (by simp [Point.ready]) (by simp [hp, Point.stale])
  | txPoll ch str =>
    simp only [Board.resume]
    split_ifs with hx
    · have hs : Sends s { s with point := s.point } (s.access (.txPoll ch str)) :=
        sends_move rfl rfl .inl (by simp [hp, Point.stale])
      exact hs
    · refine sends_move (by rw [hp]; rfl) rfl (fun _ => .inr ⟨?_, hread hx rfl⟩)
        (by simp [hp, Point.stale])
      rw [hp]
      rfl
  | txWrite ch str => exact sends_write (by rw [hp]; rfl) (by rw [hp]; rfl) rfl rfl rfl
  | txDone str =>
    exact (follows_message? (r := false)).sends (by rw [hp]; rfl) rfl (by simp) fun _ => hclear
  | entry =>
    have hs : s.point.stale = false := by rw [hp]; rfl
    simp only [Board.resume]
    split_ifs
    · refine sends_move (by rw [hp]; rfl) rfl (fun hr => .inr ⟨hs, ?_⟩) (by simp [hs])
      rw [← oProcBus_uartTx]
      simp only [Point.ready, BitVec.getLsbD_and, Bool.and_eq_true] at hr
      exact hr.1
    · refine sends_move (by rw [hp]; rfl) rfl (fun hr => .inr ⟨hs, ?_⟩) (by simp [hs])
      rw [← oProcBus_uartTx]
      exact hr
  | acknowledge pic =>
    refine (follows_tick (r := s.point.ready) rfl ?_).sends (by rw [hp]; rfl) rfl .inl
      (by simp [hp, Point.stale])
    rw [hp]
    exact fun h => h
  | receive pic =>
    have hs : Sends (s.stored s.port.uartData) (s.received? pic s.port.uartData)
        (some .readUart) := by
      have hp : (s.stored s.port.uartData).point = .receive pic := hp
      refine (follows_received? (r := s.point.ready) rfl ?_).sends (by rw [hp]; rfl) rfl .inl
        (by simp [hp, Point.stale])
      rw [show s.point = .receive pic from hp]
      exact fun h => h
    exact ⟨hs.bytes, hs.ready, hs.cleared, hs.fresh, hs.write⟩
  | echo pic v => exact sends_write (by rw [hp]; rfl) (by rw [hp]; rfl) rfl rfl rfl
  | echoed pic =>
    refine (follows_toTransmit (r := false) rfl ?_).sends (by rw [hp]; rfl) rfl (by simp)
      fun _ => hclear
    rw [getLsbD_and_not]
    simp [INT_UARTTX]
  | transmit pic ch => exact sends_write (by rw [hp]; rfl) (by rw [hp]; rfl) rfl rfl rfl
  | transmitted pic =>
    exact (follows_toAudio (r := false) rfl).sends (by rw [hp]; rfl) rfl (by simp) fun _ => hclear
  | audio pic =>
    exact (follows_toPost (r := false) rfl).sends (by rw [hp]; rfl) rfl (by simp)
      (by simp [hp, Point.stale])
  | enable pic =>
    refine (follows_toAudioStart (r := s.point.ready) ?_).sends (by rw [hp]; rfl) rfl .inl
      (by simp [hp, Point.stale])
    rw [hp]
    exact fun h => h
  | audioStart pic =>
    have hs : Sends { s with enableset := s.enableset ||| intEnablev INT_AUDIO }
        (s.resume i (.audioStart pic)) (some (.writePic INT_AUDIO)) := by
      refine (follows_toTransmitStart (r := s.point.ready) ?_).sends (by rw [hp]; rfl) rfl .inl
        (by simp [hp, Point.stale])
      rw [hp]
      exact fun h => h
    exact ⟨hs.bytes, hs.ready, hs.cleared, hs.fresh, hs.write⟩
  | transmitStart ch => exact sends_write (by rw [hp]; rfl) (by rw [hp]; rfl) rfl rfl rfl
  | transmitStarted =>
    exact (follows_toRestart (r := false)).sends (by rw [hp]; rfl) rfl (by simp) fun _ => hclear
  | restart =>
    exact sends_move (by rw [hp]; rfl) rfl (by simp [Point.ready]) (by simp [hp, Point.stale])
  | panicked pic =>
    have hs : Sends s { s with point := s.point } (s.access (.panicked pic)) :=
      sends_move rfl rfl .inl (by simp [hp, Point.stale])
    exact hs

theorem sends_next : ∃ t : Board τ ι, Sends s t (s.bus i) ∧ (s.next i).point = t.point ∧
    (s.next i).handed = t.handed := by
  by_cases hgo : i.go ∨ s.point = .user
  · refine ⟨s.resume i s.point, ?_, ?_, ?_⟩
    · by_cases hu : s.point = .user
      · rw [bus_user hu, hu]
        exact sends_user hu
      · rw [bus_eq_access (hgo.resolve_right hu) hu]
        exact sends_resume rfl hu
    · simp only [Board.next, if_pos hgo]
    · simp only [Board.next, if_pos hgo]
  · have hb := bus_idle hgo
    have hs : Sends s { s with point := s.point } (s.bus i) := by
      rw [hb]
      exact sends_move rfl rfl .inl fun h h' => by simp [h] at h'
    exact ⟨s, hs, by simp only [Board.next, if_neg hgo], by simp only [Board.next, if_neg hgo]⟩

/-- The transmitter's bit tells the truth except right after a write, the supervisor has a
byte to write only when the register is empty, and no byte is lost. -/
structure Board.Sending (s : Board τ ι) : Prop where
  fresh : s.point.stale = false → s.pic.rIntState.getLsbD 7 → s.port.txStb = false
  ready : s.point.ready → s.port.txStb = false
  bytes : s.sent ++ s.port.held ++ s.point.carries = s.handed

theorem Board.Sending.init (h : board.init s) : s.Sending where
  fresh hs := by simp [h.point, Point.stale] at hs
  ready hr := by simp [h.point, Point.ready] at hr
  bytes := by simp [h.point, h.sent, h.handed, Point.carries]

theorem Board.Sending.next (h : s.Sending) : (s.next i).Sending := by
  obtain ⟨t, hs, hpt, hht⟩ := sends_next (s := s) (i := i)
  have hw : (s.bus i).bind Access.uartWrite ≠ none → s.port.txStb = false :=
    fun hw => h.ready (hs.write hw)
  have hempty : (s.bus i).bind Access.uartWrite = none → s.port.txStb = false →
      (s.next i).port.txStb = false := by
    intro hn he
    simp [Board.next, Port.step, hn, he]
  constructor
  · rw [hpt]
    intro hf hb
    have hn := hs.fresh hf
    refine hempty hn ?_
    simp only [Board.next] at hb
    rw [step_rIntState (by decide), intVector_uartTx, Bool.and_eq_true, Bool.or_eq_true] at hb
    obtain ⟨hb | hb, hc⟩ := hb
    · cases hst : s.point.stale with
      | false => exact h.fresh hst hb
      | true =>
        -- a bit left over is cleared before it counts
        obtain ⟨data, hbus, hd⟩ := hs.cleared hf hst
        exact absurd hd (by simpa [hbus, Access.picWrite] using hc)
    · simpa using hb
  · rw [hpt]
    intro hr
    have hst : t.point.stale = false := by
      generalize t.point = q at hr
      cases q <;> first | rfl | simp [Point.ready] at hr
    refine hempty (hs.fresh hst) ?_
    obtain hr | ⟨hst, hb⟩ := hs.ready hr
    · exact h.ready hr
    · exact h.fresh hst hb
  · rw [hpt, hht, ← hs.bytes _ h.bytes]
    have hheld : (s.port.takes i.lines).toList ++ (s.next i).port.held =
        s.port.held ++ ((s.bus i).bind Access.uartWrite).toList := takes_held hw
    have hsent : (s.next i).sent = s.sent ++ (s.port.takes i.lines).toList := rfl
    rw [hsent, List.append_assoc s.sent, hheld, ← List.append_assoc s.sent]

theorem Board.Sending.reachable (h : board.Reachable s) : s.Sending :=
  h.invariant (fun _ hi => .init hi) fun _ _ hs _ => hs.next

/-- The supervisor writes at `io_uart` only when the transmitter's register is empty, and the
bytes sent, with the one in the register and the one about to be written, are those that
were handed over, in order. -/
theorem uart_never_overrun (h : board.Reachable s) :
    (∀ i ch, s.bus i = some (.writeUart ch) → s.port.txStb = false) ∧
      s.sent ++ s.port.held ++ s.point.carries = s.handed := by
  have hs := Board.Sending.reachable h
  refine ⟨fun i ch hb => ?_, hs.bytes⟩
  obtain ⟨t, hst, -⟩ := sends_next (s := s) (i := i)
  refine hs.ready (hst.write ?_)
  simp [hb, Access.uartWrite]

instance Kernel.decidableBetween (k : Kernel τ ι) :
    (e : Kernel.Event τ ι) → Decidable (k.Between e)
  | .trap tr => inferInstanceAs (Decidable (k.Enabled (.trap tr)))
  | .pass => inferInstanceAs (Decidable (k.Enabled .pass))
  | .schedule t => inferInstanceAs (Decidable (k.Enabled (.schedule t)))
  | .post _ | .push .. | .pop _ | .popShort _ => .isFalse id

instance Board.decidableEnabled (s : Board τ ι) (i : Clock τ ι) : Decidable (s.Enabled i) :=
  inferInstanceAs (Decidable (∀ e ∈ i.user.event, s.kernel.Between e))

instance (s : Board τ ι) (i : Clock τ ι) : Decidable (board.allowed s i) :=
  inferInstanceAs (Decidable (s.Enabled i))

inductive PipeName
  | rxpipe
  | txpipe
  | pwmpipe
  deriving DecidableEq

/-- One task beside the idle one, which is `true`. -/
def newBoard : Board Bool PipeName where
  pic := ⟨0, 0, false, false, false⟩
  port := ⟨false, 0, false, 0⟩
  kernel :=
    { tasks _ := ⟨.ready, 0, 0, 0, 0, .own, []⟩
      pipes _ := ⟨63, 0, 0, .interrupt, none, 0, 0, false, fun _ => 0⟩
      fd _ _ := none
      addr _ := 0x4400
      idle := true
      current := false
      needResched := false
      milliseconds := 0 }
  point := .ksetup
  enableset := intEnablev INT_BUTTON ||| intEnablev INT_TIMER
  ticks := 0
  buttonstate := 0
  audiostate := false
  message := [0x48]
  rxpipe := .rxpipe
  txpipe := .txpipe
  pwmpipe := .pwmpipe
  handed := []
  sent := []
  received := []
  pushed := []
  pulses := 0

theorem init_newBoard : board.init newBoard :=
  ⟨⟨fun _ => rfl, fun _ => rfl, fun _ => rfl, fun _ => rfl, fun _ => rfl, fun _ => rfl, rfl⟩,
    rfl, rfl, rfl, rfl, rfl, rfl, rfl, rfl, rfl, rfl⟩

/-- A clock in which the supervisor goes on. -/
def clock (rxStb : Option (BitVec 8)) (timerInt : Bool) (user : UserStep Bool PipeName) :
    Clock Bool PipeName where
  lines := ⟨false, rxStb⟩
  sources := ⟨false, false, false, timerInt, false, false, false⟩
  go := true
  spio := 0
  spio' := 0
  user := user

/-- The start-up message goes out, a byte comes in together with a tick, and the pass that
follows echoes it. -/
def typed : List (Clock Bool PipeName) :=
  List.replicate 6 (clock none false .none) ++ [clock (some 0x41) true .none] ++
    List.replicate 2 (clock none false .none) ++ [clock none false .stop] ++
    List.replicate 6 (clock none false .none)

theorem uart_never_overrun_typed :
    (∀ i ch, (typed.foldl Board.next newBoard).bus i = some (.writeUart ch) →
      (typed.foldl Board.next newBoard).port.txStb = false) ∧
      (typed.foldl Board.next newBoard).sent ++ (typed.foldl Board.next newBoard).port.held ++
        (typed.foldl Board.next newBoard).point.carries =
      (typed.foldl Board.next newBoard).handed :=
  uart_never_overrun ((System.reachable_init init_newBoard).foldl (by decide +kernel))

/-- Bytes below 0x80, each of which is read before the next one comes in, and room in
`rxpipe` when they are. -/
structure Board.ReadInTime (s : Board τ ι) (i : Clock τ ι) : Prop where
  low : ∀ b ∈ i.lines.rxStb, b.getLsbD 7 = false
  read : i.lines.rxStb ≠ none → s.port.rxRdy = false ∨ s.bus i = some .readUart
  room : s.bus i = some .readUart → ¬ (s.kernel.pipes s.rxpipe).Full

/-- The port may hold a byte that came in before the kernel started, if it is below 0x80. -/
def receiving : System (Board τ ι) (Clock τ ι) where
  init s := s.Init ∧ (s.port.rxRdy → s.port.rRxData.getLsbD 7 = false)
  allowed s i := s.Enabled i ∧ s.ReadInTime i
  next := Board.next

omit [DecidableEq τ] in
theorem storedByte_uartData {q : Port} {p : SysPipe τ}
    (h : q.rxRdy → q.rRxData.getLsbD 7 = false) (hp : ¬ p.Full) :
    storedByte p q.uartData = q.waiting := by
  obtain ⟨txStb, txData, rxRdy, d⟩ := q
  have hlow : d.getLsbD 7 = false →
      (0#23 ++ 0#1 ++ d : Word) &&& ~~~0x7f#32 = 0 ∧ (0#23 ++ 0#1 ++ d : Word).setWidth 8 = d := by
    clear h
    revert d
    decide +kernel
  have hnone : (0#23 ++ 1#1 ++ d : Word) &&& ~~~0x7f#32 ≠ 0 := by
    clear h hlow
    revert d
    decide +kernel
  cases rxRdy with
  | false =>
    refine if_neg fun hc => hnone hc.1
  | true =>
    obtain ⟨hz, hd⟩ := hlow (h rfl)
    exact (if_pos ⟨hz, hp⟩).trans (congrArg (fun x => [x]) hd)

/-- The supervisor pushes what it reads at `io_uart`, and nothing else. -/
structure Pushes (s t : Board τ ι) (bytes : List (BitVec 8)) : Prop where
  pushed : t.pushed = s.pushed ++ bytes
  rx : s.Apart → t.rx = s.rx.pushes bytes

omit [DecidableEq τ] [DecidableEq ι] in
theorem Follows.pushes {tick : Bool} (h : Follows s t r tick) : Pushes s t [] :=
  ⟨h.pushed.trans (List.append_nil _).symm, h.rx⟩

omit [DecidableEq τ] [DecidableEq ι] in
theorem pushes_move {q : Point} : Pushes s { s with point := q } [] :=
  ⟨(List.append_nil _).symm, fun _ => rfl⟩

theorem pushes_resume {p : Point} (hu : p ≠ .user)
    (hf : s.access p = some .readUart → ¬ s.rx.Full) :
    Pushes s (s.resume i p)
      (if s.access p = some .readUart then storedByte s.rx s.port.uartData else []) := by
  cases p with
  | user => exact absurd rfl hu
  | start => exact (follows_message? (r := true)).pushes
  | txPoll ch str =>
    have h : Pushes s (s.resume i (.txPoll ch str)) [] := by
      simp only [Board.resume]
      split_ifs
      · exact pushes_move (q := s.point)
      · exact pushes_move
    exact h
  | txDone str => exact (follows_message? (r := true)).pushes
  | entry =>
    have h : Pushes s (s.resume i .entry) [] := by
      simp only [Board.resume]
      split_ifs <;> exact pushes_move
    exact h
  | acknowledge pic => exact (follows_tick (r := true) rfl fun _ => rfl).pushes
  | receive pic =>
    have h : Follows (s.stored s.port.uartData) (s.received? pic s.port.uartData) true
        (pic.getLsbD 4) := follows_received? rfl fun _ => rfl
    exact ⟨h.pushed, fun ha => (h.rx ha).trans (stored_rx (hf rfl))⟩
  | echoed pic => exact (follows_toTransmit (r := true) rfl fun _ => rfl).pushes
  | transmitted pic => exact (follows_toAudio (r := true) rfl).pushes
  | audio pic => exact (follows_toPost (r := true) rfl).pushes
  | enable pic => exact (follows_toAudioStart (r := true) fun _ => rfl).pushes
  | audioStart pic =>
    have h : Follows { s with enableset := s.enableset ||| intEnablev INT_AUDIO }
        (s.resume i (.audioStart pic)) true false := follows_toTransmitStart fun _ => rfl
    exact ⟨h.pushes.pushed, h.rx⟩
  | transmitStarted => exact (follows_toRestart (r := true)).pushes
  | _ => exact pushes_move

/-- What a clock pushes; a task's code is none of it. -/
theorem pushes_next (hf : s.bus i = some .readUart → ¬ s.rx.Full) :
    (s.next i).pushed = s.pushed ++
      (if s.bus i = some .readUart then storedByte s.rx s.port.uartData else []) ∧
    if s.point = .user then s.bus i ≠ some .readUart
    else s.Apart → (s.next i).rx = s.rx.pushes
      (if s.bus i = some .readUart then storedByte s.rx s.port.uartData else []) := by
  by_cases hu : s.point = .user
  · have hb : s.bus i ≠ some .readUart := by
      rw [bus_user hu]
      cases i.user <;> simp [UserStep.access]
    rw [if_pos hu, if_neg hb, List.append_nil]
    refine ⟨?_, hb⟩
    have hn : (s.next i).pushed = (s.resume i .user).pushed := by
      simp only [Board.next, hu, or_true, if_true]
    rw [hn, Board.resume]
    cases i.user <;> rfl
  · rw [if_neg hu]
    by_cases hgo : i.go
    · rw [bus_eq_access hgo hu] at hf ⊢
      have hp := pushes_resume (i := i) hu hf
      have hn : (s.next i).pushed = (s.resume i s.point).pushed ∧
          (s.next i).rx = (s.resume i s.point).rx := by
        simp only [Board.next, Board.rx, if_pos (Or.inl hgo), true_and]
      exact ⟨hn.1.trans hp.pushed, fun ha => hn.2.trans (hp.rx ha)⟩
    · have hn : ¬ (i.go ∨ s.point = .user) := by simp [hgo, hu]
      rw [bus_idle hn, if_neg (by simp), List.append_nil]
      simp only [Board.next, Board.rx, if_neg hn, true_and]
      exact fun _ => rfl

structure Board.Receiving (s : Board τ ι) : Prop where
  low : s.port.rxRdy → s.port.rRxData.getLsbD 7 = false
  bytes : s.pushed ++ s.port.waiting = s.received

theorem Board.Receiving.init (h : receiving.init s) : s.Receiving :=
  ⟨h.2, by rw [h.1.pushed, h.1.received]; rfl⟩

theorem Board.Receiving.next (h : s.Receiving) (ha : s.ReadInTime i) : (s.next i).Receiving := by
  constructor
  · simp only [Board.next, Port.step]
    intro hr
    cases hx : i.lines.rxStb with
    | some b => exact ha.low b hx
    | none =>
      simp only [hx, Option.isSome_none, Bool.or_false] at hr
      split_ifs at hr
      exact h.low hr
  · have hread : (if s.bus i = some .readUart then storedByte s.rx s.port.uartData else []) =
        if s.bus i = some .readUart then s.port.waiting else [] := by
      split_ifs with hb
      · exact storedByte_uartData h.low (ha.room hb)
      · rfl
    have hport : (if s.bus i = some .readUart then s.port.waiting else []) ++
        (s.next i).port.waiting = s.port.waiting ++ i.lines.rxStb.toList := by
      have := waiting_step ((s.bus i).bind Access.uartWrite) (decide (s.bus i = some .readUart))
        (p := s.port) (l := i.lines) (by simpa using ha.read)
      simpa [Board.next] using this
    rw [(pushes_next ha.room).1, hread, List.append_assoc, hport, ← List.append_assoc, h.bytes]
    rfl

instance (s : Board τ ι) (i : Clock τ ι) : Decidable (s.ReadInTime i) :=
  decidable_of_iff ((∀ b ∈ i.lines.rxStb, b.getLsbD 7 = false) ∧
    (i.lines.rxStb ≠ none → s.port.rxRdy = false ∨ s.bus i = some .readUart) ∧
    (s.bus i = some .readUart → ¬ (s.kernel.pipes s.rxpipe).Full))
    ⟨fun h => ⟨h.1, h.2.1, h.2.2⟩, fun h => ⟨h.low, h.read, h.room⟩⟩

instance (s : Board τ ι) (i : Clock τ ι) : Decidable (receiving.allowed s i) :=
  inferInstanceAs (Decidable (s.Enabled i ∧ s.ReadInTime i))

end

end S6Soc.ZipOS
