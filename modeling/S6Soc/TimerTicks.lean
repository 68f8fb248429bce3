import Mathlib
import S6Soc.UartRuns

/-! The timer under `kernel_entry`: no pulse is lost at the controller, and none is counted
twice. -/
namespace S6Soc.ZipOS
open Clocked Icontrol

variable {τ ι : Type} {s t : Board τ ι} {pic : Word} {r : Bool} {i : Clock τ ι}
  {a : Option Access}

/-- Before the write that starts interrupts. -/
def Point.booting : Point → Bool
  | .ksetup | .start => true
  | .txClear .. | .txPoll .. | .txWrite .. | .txDone _ | .user | .entry | .acknowledge _
  | .receive _ | .echo .. | .echoed _ | .transmit .. | .transmitted _ | .audio _ | .enable _
  | .audioStart _ | .transmitStart _ | .transmitStarted | .restart | .panicked _ => false

/-- About to acknowledge a tick. -/
def Point.acknowledges : Point → Bool
  | .acknowledge pic => pic.getLsbD 4
  | .ksetup | .start | .txClear .. | .txPoll .. | .txWrite .. | .txDone _ | .user | .entry
  | .receive _ | .echo .. | .echoed _ | .transmit .. | .transmitted _ | .audio _ | .enable _
  | .audioStart _ | .transmitStart _ | .transmitStarted | .restart | .panicked _ => false

/-- Where the timer's interrupt is enabled. -/
def Point.enabled : Point → Bool
  | .txClear .. | .txPoll .. | .txWrite .. | .txDone _ | .user | .entry | .enable _
  | .audioStart _ | .transmitStart _ | .transmitStarted => true
  | .ksetup | .start | .acknowledge _ | .receive _ | .echo .. | .echoed _ | .transmit ..
  | .transmitted _ | .audio _ | .restart | .panicked _ => false

/-- Between the acknowledgement of interrupts and user mode. -/
def Point.serving : Point → Bool
  | .receive _ | .echo .. | .echoed _ | .transmit .. | .transmitted _ | .audio _ | .restart
  | .panicked _ => true
  | .ksetup | .start | .txClear .. | .txPoll .. | .txWrite .. | .txDone _ | .user | .entry
  | .acknowledge _ | .enable _ | .audioStart _ | .transmitStart _ | .transmitStarted => false

/-- What going on from `s` to `t` with the access `a` means for the timer. -/
structure Ticks (s t : Board τ ι) (a : Option Access) : Prop where
  enables : EnablesTimer s.enableset → EnablesTimer t.enableset
  counted : s.kernel.milliseconds.toNat < 2 ^ 31 → t.kernel.milliseconds.toNat < 2 ^ 31 ∧
    (t.point.tick = (s.point.tick || s.point.acknowledges) ∧
        t.kernel.milliseconds = s.kernel.milliseconds ∨
      t.point.tick = false ∧ t.kernel.milliseconds.toNat = (s.kernel.milliseconds.toNat +
        (s.point.tick || s.point.acknowledges).toNat) % 2 ^ 31)
  clears : EnablesTimer s.enableset → ((a.bind Access.picWrite).any fun data => data.getLsbD 4) =
    (s.point.booting || s.point.acknowledges)
  acknowledges : t.point.acknowledges →
    s.pic.rIntState.getLsbD 4 ∧ a.bind Access.picWrite = none
  enabled (ints : BitVec 11) : EnablesTimer s.enableset →
    (s.point.enabled → s.pic.rIntEnable.getLsbD 4) → t.point.enabled →
    (s.pic.step (a.bind Access.picWrite) ints).rIntEnable.getLsbD 4
  booting : t.point.booting → s.point.booting

theorem enable_kept {wr : Option Word} {ints : BitVec 11}
    (hw : ∀ data, wr = some data → data.getLsbD 31 ∨ data.getLsbD 20 = false)
    (h : s.pic.rIntEnable.getLsbD 4) : (s.pic.step wr ints).rIntEnable.getLsbD 4 := by
  rw [step_rIntEnable (by decide)]
  cases wr with
  | none => exact h
  | some data =>
    obtain hd | hd := hw data rfl
    · simp only [hd, if_true, h, Bool.true_or]
    · dsimp only
      rw [h, hd]
      split <;> rfl

theorem enable_set {data : Word} {ints : BitVec 11} (h31 : data.getLsbD 31)
    (h20 : data.getLsbD 20) :
    (s.pic.step (some data) ints).rIntEnable.getLsbD 4 := by
  rw [step_rIntEnable (by decide)]
  dsimp only
  rw [if_pos h31, h20, Bool.or_true]

theorem serving_elsewhere {q : Point} (h : q.serving) :
    q.acknowledges = false ∧ q.enabled = false ∧ q.booting = false := by
  cases q <;> first | exact ⟨rfl, rfl, rfl⟩ | cases h

/-- The supervisor goes on serving interrupts. -/
theorem Follows.ticks (h : Follows s t r (s.point.tick || s.point.acknowledges))
    (hs : t.point.serving)
    (hc : ((a.bind Access.picWrite).any fun data => data.getLsbD 4) =
      (s.point.booting || s.point.acknowledges)) : Ticks s t a := by
  obtain ⟨hack, hen, hboot⟩ := serving_elsewhere hs
  refine ⟨h.timer, h.counted, fun _ => hc, ?_, ?_, ?_⟩
  · simp [hack]
  · simp [hen]
  · simp [hboot]

/-- Only the point moves. -/
theorem ticks_move {q : Point} (hq : q.tick = (s.point.tick || s.point.acknowledges))
    (hc : ((a.bind Access.picWrite).any fun data => data.getLsbD 4) =
      (s.point.booting || s.point.acknowledges))
    (hack : q.acknowledges → s.pic.rIntState.getLsbD 4 ∧ a.bind Access.picWrite = none)
    (hen : q.enabled → s.point.enabled ∧ ∀ data, a.bind Access.picWrite = some data →
      data.getLsbD 31 ∨ data.getLsbD 20 = false)
    (hboot : q.booting → s.point.booting) : Ticks s { s with point := q } a where
  enables h := h
  counted h := ⟨h, .inl ⟨hq, rfl⟩⟩
  clears _ := hc
  acknowledges := hack
  enabled _ _ hs hq := enable_kept (hen hq).2 (hs (hen hq).1)
  booting := hboot

theorem oProcBus_timer : s.pic.oProcBus.getLsbD 4 = s.pic.rIntState.getLsbD 4 :=
  getLsbD_oProcBus (by decide)

theorem message?_point {str : List (BitVec 8)} :
    (s.message? str).point.acknowledges = false ∧ (s.message? str).point.booting = false := by
  cases str <;> exact ⟨rfl, rfl⟩

/-- The supervisor goes on where the timer's interrupt stays enabled. -/
theorem Follows.ticks_enabled (h : Follows s t r (s.point.tick || s.point.acknowledges))
    (ht : t.point.acknowledges = false ∧ t.point.booting = false)
    (hc : ((a.bind Access.picWrite).any fun data => data.getLsbD 4) =
      (s.point.booting || s.point.acknowledges))
    (he : s.point.enabled) (hw : ∀ data, a.bind Access.picWrite = some data →
      data.getLsbD 31 ∨ data.getLsbD 20 = false) : Ticks s t a := by
  refine ⟨h.timer, h.counted, fun _ => hc, ?_, fun _ _ hs _ => enable_kept hw (hs he), ?_⟩
  · simp [ht.1]
  · simp [ht.2]

/-- What is in hand after the move was in hand before it, or is acknowledged by it. -/
theorem Ticks.counts (h : Ticks s t a) (hs : s.kernel.milliseconds.toNat < 2 ^ 31) {n k : Nat}
    (hn : s.kernel.milliseconds.toNat = n % 2 ^ 31)
    (hk : k = n + (s.point.tick || s.point.acknowledges).toNat) :
    ∃ m, t.kernel.milliseconds.toNat = m % 2 ^ 31 ∧ k = m + t.point.tick.toNat := by
  obtain ⟨ht, hms⟩ | ⟨ht, hms⟩ := (h.counted hs).2
  · exact ⟨n, by rw [hms, hn], by rw [hk, ht]⟩
  · refine ⟨k, ?_, by simp [ht]⟩
    rw [hms, hk, hn]
    exact Nat.mod_add_mod ..

theorem not_in_hand_of_booting {q : Point} (h : q.booting) :
    q.tick = false ∧ q.acknowledges = false := by
  cases q <;> first | exact ⟨rfl, rfl⟩ | cases h

theorem tick_of_acknowledges {q : Point} (h : q.acknowledges) : q.tick = false := by
  cases q <;> first | rfl | cases h

section
variable [DecidableEq τ] [DecidableEq ι]

theorem serving_toAudio : (s.toAudio pic).point.serving := by
  simp only [Board.toAudio]
  split_ifs <;> rfl

theorem serving_toTransmit : (s.toTransmit pic).point.serving := by
  simp only [Board.toTransmit]
  split_ifs
  · rfl
  · exact serving_toAudio
  · exact serving_toAudio

theorem serving_toReceive : (s.toReceive pic).point.serving := by
  unfold Board.toReceive
  split_ifs
  · rfl
  · exact serving_toTransmit

theorem serving_button {spio : Word} : (s.button pic spio).point.serving := by
  simp only [Board.button]
  split_ifs
  · rfl
  all_goals exact serving_toReceive

theorem serving_received? {v : Word} : (s.received? pic v).point.serving := by
  simp only [Board.received?]
  split_ifs
  · rfl
  all_goals first | rfl | exact serving_toTransmit

theorem toTransmitStart_point : (s.toTransmitStart pic).point.acknowledges = false ∧
    (s.toTransmitStart pic).point.booting = false := by
  simp only [Board.toTransmitStart]
  split_ifs <;> exact ⟨rfl, rfl⟩

theorem toAudioStart_point : (s.toAudioStart pic).point.acknowledges = false ∧
    (s.toAudioStart pic).point.booting = false := by
  simp only [Board.toAudioStart]
  split_ifs
  · exact ⟨rfl, rfl⟩
  · exact toTransmitStart_point

theorem ticks_resume {p : Point} (hp : s.point = p) (hu : p ≠ .user) :
    Ticks s (s.resume i p) (s.access p) := by
  have hclear : ∀ data, some INT_UARTTX = some data → data.getLsbD 31 ∨
      data.getLsbD 20 = false := by
    rintro _ ⟨⟩
    exact .inr rfl
  cases p with
  | user => exact absurd rfl hu
  | ksetup =>
    exact ticks_move (by rw [hp]; rfl) (by rw [hp]; rfl) (by simp [Point.acknowledges])
      (by simp [Point.enabled]) (by simp [hp, Point.booting])
  | start =>
    have hf : Follows s (s.message? s.message) true (s.point.tick || s.point.acknowledges) := by
      rw [hp]
      exact follows_message?
    have ht : (s.message? s.message).point.acknowledges = false ∧
        (s.message? s.message).point.booting = false := message?_point
    refine ⟨hf.timer, hf.counted, fun _ => ?_, ?_, fun _ he _ _ => enable_set ?_ ?_, ?_⟩
    · rw [hp]
      exact (BitVec.getLsbD_or ..).trans (Bool.or_true _)
    · simp [Board.resume, ht.1]
    · rw [BitVec.getLsbD_or, BitVec.getLsbD_or]
      rfl
    · rw [BitVec.getLsbD_or, BitVec.getLsbD_or, he.1]
      rfl
    · simp [Board.resume, ht.2]
  | txClear ch str =>
    exact ticks_move (by rw [hp]; rfl) (by rw [hp]; rfl) (by simp [Point.acknowledges])
      (fun _ => ⟨by rw [hp]; rfl, hclear⟩) (by simp [Point.booting])
  | txPoll ch str =>
    have hmove : ∀ {q : Point}, q.tick = false → q.acknowledges = false → q.booting = false →
        Ticks s { s with point := q } (some .readPic) := by
      intro q ht hack hboot
      refine ticks_move (by rw [hp]; exact ht) (by rw [hp]; rfl) (by simp [hack])
        (fun _ => ⟨by rw [hp]; rfl, by simp [Access.picWrite]⟩) (by simp [hboot])
    simp only [Board.resume]
    split_ifs
    · have hs : Ticks s { s with point := s.point } (some .readPic) :=
        hmove (by rw [hp]; rfl) (by rw [hp]; rfl) (by rw [hp]; rfl)
      exact hs
    · exact hmove rfl rfl rfl
  | txWrite ch str =>
    exact ticks_move (by rw [hp]; rfl) (by rw [hp]; rfl) (by simp [Point.acknowledges])
      (fun _ => ⟨by rw [hp]; rfl, by simp [Board.access, Access.picWrite]⟩)
      (by simp [Point.booting])
  | txDone str =>
    have hf : Follows s (s.message? str) true (s.point.tick || s.point.acknowledges) := by
      rw [hp]
      exact follows_message?
    exact hf.ticks_enabled message?_point (by rw [hp]; rfl) (by rw [hp]; rfl) hclear
  | entry =>
    simp only [Board.resume]
    split_ifs
    · refine ticks_move (by rw [hp]; rfl) (by rw [hp]; rfl) (fun h => ⟨?_, rfl⟩)
        (by simp [Point.enabled]) (by simp [Point.booting])
      rw [← oProcBus_timer]
      simp only [Point.acknowledges, BitVec.getLsbD_and, Bool.and_eq_true] at h
      exact h.1
    · exact ticks_move (by rw [hp]; rfl) (by rw [hp]; rfl) (by simp [Point.acknowledges])
        (fun _ => ⟨by rw [hp]; rfl, by simp [Board.access, Access.picWrite]⟩)
        (by simp [Point.booting])
  | acknowledge pic =>
    have hf : Follows s ((s.tick pic i.spio).1.button (s.tick pic i.spio).2 i.spio') true
        (s.point.tick || s.point.acknowledges) := by
      rw [hp]
      exact follows_tick rfl fun _ => rfl
    refine hf.ticks serving_button ?_
    rw [hp]
    refine (BitVec.getLsbD_or ..).trans ?_
    rw [intDisablev, BitVec.getLsbD_shiftLeft]
    rfl
  | receive pic =>
    have hf : Follows (s.stored s.port.uartData) (s.received? pic s.port.uartData) true
        (s.point.tick || s.point.acknowledges) := by
      refine follows_received? ?_ fun _ => rfl
      rw [hp]
      exact (Bool.or_false _).symm
    have hstored : (s.stored s.port.uartData).point = .receive pic := hp
    have hs := hf.ticks (a := some .readUart) serving_received? (by rw [hstored]; rfl)
    have hk : (s.stored s.port.uartData).kernel.milliseconds = s.kernel.milliseconds := by
      simp only [Board.stored]
      split_ifs
      · exact Kernel.milliseconds_next (by simp)
      · rfl
    exact ⟨hs.enables, hk ▸ hs.counted, hs.clears, hs.acknowledges, hs.enabled, hs.booting⟩
  | echo pic v =>
    exact ticks_move (by rw [hp]; exact (Bool.or_false _).symm) (by rw [hp]; rfl)
      (by simp [Point.acknowledges]) (by simp [Point.enabled]) (by simp [Point.booting])
  | echoed pic =>
    have hb : (pic &&& ~~~INT_UARTTX).getLsbD 4 = pic.getLsbD 4 := by
      rw [getLsbD_and_not]
      exact Bool.and_true _
    have hf : Follows s (s.toTransmit (pic &&& ~~~INT_UARTTX)) true
        (s.point.tick || s.point.acknowledges) := by
      rw [hp]
      exact follows_toTransmit (hb.trans (Bool.or_false _).symm) fun _ => rfl
    exact hf.ticks serving_toTransmit (by rw [hp]; rfl)
  | transmit pic ch =>
    exact ticks_move (by rw [hp]; exact (Bool.or_false _).symm) (by rw [hp]; rfl)
      (by simp [Point.acknowledges]) (by simp [Point.enabled]) (by simp [Point.booting])
  | transmitted pic =>
    exact (follows_toAudio (r := true) (by rw [hp]; exact (Bool.or_false _).symm)).ticks
      serving_toAudio (by rw [hp]; rfl)
  | audio pic =>
    exact (follows_toPost (r := true) (by rw [hp]; exact (Bool.or_false _).symm)).ticks
      rfl (by rw [hp]; rfl)
  | enable pic =>
    have hf : Follows s (s.toAudioStart pic) true (s.point.tick || s.point.acknowledges) := by
      rw [hp]
      exact follows_toAudioStart fun _ => rfl
    refine hf.ticks_enabled toAudioStart_point (by rw [hp]; rfl) (by rw [hp]; rfl) ?_
    rintro _ ⟨⟩
    exact .inl rfl
  | audioStart pic =>
    have hf : Follows { s with enableset := s.enableset ||| intEnablev INT_AUDIO }
        (s.resume i (.audioStart pic)) true (s.point.tick || s.point.acknowledges) := by
      have htick : (s.point.tick || s.point.acknowledges) = false := by
        rw [hp]
        rfl
      rw [htick]
      exact follows_toTransmitStart fun _ => rfl
    have hf' := hf.of_eq (u := s) rfl rfl rfl (fun h => h.or rfl) fun ha => ⟨ha, rfl⟩
    have hs := hf'.ticks_enabled (a := some (.writePic INT_AUDIO)) toTransmitStart_point
      (by rw [hp]; rfl) (by rw [hp]; rfl) ?_
    · exact hs
    · rintro _ ⟨⟩
      exact .inr rfl
  | transmitStart ch =>
    exact ticks_move (by rw [hp]; rfl) (by rw [hp]; rfl) (by simp [Point.acknowledges])
      (fun _ => ⟨by rw [hp]; rfl, by simp [Board.access, Access.picWrite]⟩)
      (by simp [Point.booting])
  | transmitStarted =>
    have hf : Follows s s.toRestart true (s.point.tick || s.point.acknowledges) := by
      rw [hp]
      exact follows_toRestart
    exact hf.ticks rfl (by rw [hp]; rfl)
  | restart =>
    refine ⟨fun h => h, fun h => ⟨h, .inl ⟨by rw [hp]; rfl, rfl⟩⟩, fun he => ?_,
      by simp [Board.resume, Point.acknowledges], fun _ he _ _ => enable_set ?_ ?_,
      by simp [Board.resume, Point.booting]⟩
    · rw [hp]
      refine (BitVec.getLsbD_or ..).trans ?_
      rw [he.2]
      rfl
    · rw [BitVec.getLsbD_or]
      rfl
    · rw [BitVec.getLsbD_or, he.1]
      rfl
  | panicked pic =>
    have hs : Ticks s { s with point := s.point } none :=
      ticks_move (by rw [hp]; exact (Bool.or_false _).symm) (by rw [hp]; rfl)
        (by simp [hp, Point.acknowledges]) (by simp [hp, Point.enabled]) (by simp)
    exact hs

theorem ticks_user (hp : s.point = .user) (ha : s.Enabled i) :
    Ticks s (s.resume i .user) i.user.access := by
  have hpoint : (s.resume i .user).point = .user ∨ (s.resume i .user).point = .entry := by
    simp only [Board.resume]
    cases i.user <;> simp [hp]
  have hms : (s.resume i .user).kernel.milliseconds = s.kernel.milliseconds := by
    simp only [Board.resume]
    cases hu : i.user with
    | kernel e =>
      refine Kernel.milliseconds_next ?_
      rintro events rfl
      exact ha _ (by rw [hu]; rfl)
    | _ => rfl
  have hset : (s.resume i .user).enableset = s.enableset := by
    simp only [Board.resume]
    cases i.user <;> rfl
  have htick : (s.resume i .user).point.tick = false ∧
      (s.resume i .user).point.acknowledges = false ∧
      (s.resume i .user).point.booting = false := by
    obtain h | h := hpoint <;> rw [h] <;> exact ⟨rfl, rfl, rfl⟩
  refine ⟨fun h => hset ▸ h, fun h => ?_, fun _ => ?_, by simp [htick.2.1], fun _ _ hs _ => ?_,
    by simp [htick.2.2]⟩
  · rw [hms, hp]
    exact ⟨h, .inl ⟨htick.1, rfl⟩⟩
  · rw [hp]
    cases i.user <;> rfl
  · refine enable_kept ?_ (hs (by rw [hp]; rfl))
    cases i.user <;> rintro _ ⟨⟩
    · exact .inr rfl
    · exact .inl rfl

theorem ticks_next (ha : s.Enabled i) (hgo : i.go ∨ s.point = .user) :
    ∃ t : Board τ ι, Ticks s t (s.bus i) ∧ (s.next i).point = t.point ∧
      (s.next i).kernel = t.kernel ∧ (s.next i).enableset = t.enableset := by
  refine ⟨s.resume i s.point, ?_, ?_, ?_, ?_⟩
  · by_cases hu : s.point = .user
    · rw [bus_user hu, hu]
      exact ticks_user hu ha
    · rw [bus_eq_access (hgo.resolve_right hu) hu]
      exact ticks_resume rfl hu
  all_goals simp only [Board.next, if_pos hgo]

/-- The timer does not pulse before the last pulse has been acknowledged, nor before the kernel
starts interrupts. -/
def Board.TicksInTime (s : Board τ ι) (i : Clock τ ι) : Prop :=
  i.sources.timerInt → s.point.booting = false ∧ s.pic.rIntState.getLsbD 4 = false

def ticking : System (Board τ ι) (Clock τ ι) where
  init := Board.Init
  allowed s i := s.Enabled i ∧ s.TicksInTime i
  next := Board.next

/-- Every pulse is counted, or pending at the controller, or in the hand of the supervisor;
one that is pending in user mode is enabled. -/
structure Board.Ticking (s : Board τ ι) : Prop where
  enables : EnablesTimer s.enableset
  small : s.kernel.milliseconds.toNat < 2 ^ 31
  booting : s.point.booting → s.pulses = 0 ∧ s.kernel.milliseconds.toNat = 0
  counted : s.point.booting = false → ∃ n, s.kernel.milliseconds.toNat = n % 2 ^ 31 ∧
    s.pulses = n + s.point.tick.toNat + (s.pic.rIntState.getLsbD 4).toNat
  acknowledges : s.point.acknowledges → s.pic.rIntState.getLsbD 4
  enabled : s.point.enabled → s.pic.rIntEnable.getLsbD 4

theorem Board.Ticking.init (h : ticking.init s) : s.Ticking where
  enables := by
    rw [h.enableset]
    exact ⟨by decide, by decide⟩
  small := by simp [h.kernel.milliseconds]
  booting _ := ⟨h.pulses, by simp [h.kernel.milliseconds]⟩
  counted hb := by simp [h.point, Point.booting] at hb
  acknowledges ha := by simp [h.point, Point.acknowledges] at ha
  enabled he := by simp [h.point, Point.enabled] at he

theorem rIntState_timer_next : (s.next i).pic.rIntState.getLsbD 4 =
    ((s.pic.rIntState.getLsbD 4 || i.sources.timerInt) &&
      !(((s.bus i).bind Access.picWrite).any fun data => data.getLsbD 4)) := by
  have h : (s.next i).pic.rIntState.getLsbD 4 =
      ((s.pic.rIntState.getLsbD 4 || (intVector s.port i.sources).getLsbD 4) &&
        !(((s.bus i).bind Access.picWrite).any fun data => data.getLsbD 4)) :=
    step_rIntState (by decide)
  rwa [intVector_timer] at h

/-- While the supervisor makes no access, pulses only become pending. -/
theorem Board.Ticking.idle (h : s.Ticking) (ha : s.TicksInTime i)
    (hgo : ¬ (i.go ∨ s.point = .user)) : (s.next i).Ticking := by
  have hb := bus_idle hgo
  have hpoint : (s.next i).point = s.point := by simp only [Board.next, if_neg hgo]
  have hkernel : (s.next i).kernel = s.kernel := by simp only [Board.next, if_neg hgo]
  have hset : (s.next i).enableset = s.enableset := by simp only [Board.next, if_neg hgo]
  have hpulses : (s.next i).pulses = s.pulses + i.sources.timerInt.toNat := rfl
  have hlatch : (s.next i).pic.rIntState.getLsbD 4 =
      (s.pic.rIntState.getLsbD 4 || i.sources.timerInt) := by
    rw [rIntState_timer_next, hb]
    exact Bool.and_true _
  have hquiet : s.point.booting → i.sources.timerInt = false := by
    intro hs
    by_contra hi
    have := (ha (Bool.not_eq_false _ ▸ hi)).1
    simp [hs] at this
  refine ⟨by rw [hset]; exact h.enables, by rw [hkernel]; exact h.small, fun hs => ?_,
    fun hs => ?_, fun hs => ?_, fun hs => ?_⟩
  · rw [hpoint] at hs
    rw [hpulses, hkernel, hquiet hs]
    exact h.booting hs
  · rw [hpoint] at hs ⊢
    rw [hpulses, hkernel, hlatch]
    obtain ⟨n, hn, hp⟩ := h.counted hs
    refine ⟨n, hn, ?_⟩
    cases ht : i.sources.timerInt with
    | false => simpa using hp
    | true =>
      rw [(ha ht).2] at hp ⊢
      simp [hp]
  · rw [hpoint] at hs
    rw [hlatch, h.acknowledges hs]
    rfl
  · rw [hpoint] at hs
    have hk : (s.pic.step ((s.bus i).bind Access.picWrite)
        (intVector s.port i.sources)).rIntEnable.getLsbD 4 :=
      enable_kept (by simp [hb]) (h.enabled hs)
    exact hk

/-- An access acknowledges a tick that is pending, and that the supervisor then has in hand,
or none. -/
theorem Board.Ticking.move (h : s.Ticking) (he : s.Enabled i) (ha : s.TicksInTime i)
    (hgo : i.go ∨ s.point = .user) : (s.next i).Ticking := by
  obtain ⟨t, ht, hpoint, hkernel, hset⟩ := ticks_next he hgo
  have hpulses : (s.next i).pulses = s.pulses + i.sources.timerInt.toNat := rfl
  have hlatch : (s.next i).pic.rIntState.getLsbD 4 =
      ((s.pic.rIntState.getLsbD 4 || i.sources.timerInt) &&
        !(s.point.booting || s.point.acknowledges)) := by
    rw [rIntState_timer_next, ht.clears h.enables]
  have hms := (ht.counted h.small).2
  have hone : (s.pic.rIntState.getLsbD 4 || i.sources.timerInt).toNat =
      (s.pic.rIntState.getLsbD 4).toNat + i.sources.timerInt.toNat := by
    cases hi : i.sources.timerInt with
    | false => simp
    | true =>
      rw [(ha hi).2]
      rfl
  refine ⟨by rw [hset]; exact ht.enables h.enables,
    by rw [hkernel]; exact (ht.counted h.small).1, fun hs => ?_, fun hs => ?_, fun hs => ?_,
    fun hs => ?_⟩
  · rw [hpoint] at hs
    have hbs := ht.booting hs
    obtain ⟨hp, hm⟩ := h.booting hbs
    have hq := not_in_hand_of_booting hbs
    have hquiet : i.sources.timerInt = false := by
      by_contra hi
      have := (ha (Bool.not_eq_false _ ▸ hi)).1
      simp [hbs] at this
    rw [hpulses, hkernel, hquiet, hp]
    refine ⟨rfl, ?_⟩
    obtain ⟨-, hms⟩ | ⟨-, hms⟩ := hms
    · rw [hms, hm]
    · rw [hms, hm, hq.1, hq.2]
      rfl
  · rw [hpoint, hkernel, hlatch, hpulses]
    cases hbs : s.point.booting with
    | true =>
      obtain ⟨hp, hm⟩ := h.booting hbs
      have hq := not_in_hand_of_booting hbs
      have hquiet : i.sources.timerInt = false := by
        by_contra hi
        have := (ha (Bool.not_eq_false _ ▸ hi)).1
        simp [hbs] at this
      obtain ⟨m, hm, hk⟩ := ht.counts (n := 0) (k := 0) h.small hm (by rw [hq.1, hq.2]; rfl)
      refine ⟨m, hm, ?_⟩
      rw [hp, hquiet, ← hk]
      simp
    | false =>
      obtain ⟨n, hn, hp⟩ := h.counted hbs
      have hhand :
          (s.pic.rIntState.getLsbD 4).toNat + i.sources.timerInt.toNat + s.point.tick.toNat =
          (s.point.tick || s.point.acknowledges).toNat +
            ((s.pic.rIntState.getLsbD 4 || i.sources.timerInt) &&
              !(false || s.point.acknowledges)).toNat := by
        cases hack : s.point.acknowledges with
        | true =>
          rw [tick_of_acknowledges hack, ← hone, h.acknowledges hack]
          rfl
        | false =>
          rw [← hone]
          simp only [Bool.or_false, Bool.not_false, Bool.and_true]
          omega
      obtain ⟨m, hm, hk⟩ := ht.counts h.small hn rfl
      refine ⟨m, hm, ?_⟩
      omega
  · rw [hpoint] at hs
    obtain ⟨hl, hw⟩ := ht.acknowledges hs
    rw [rIntState_timer_next, hw, hl]
    rfl
  · rw [hpoint] at hs
    exact ht.enabled (intVector s.port i.sources) h.enables h.enabled hs

/-- A tick that is pending where the timer's interrupt is enabled shows in `r_any`. -/
theorem rAny_next (he : s.pic.rIntEnable.getLsbD 4) (hs : s.pic.rIntState.getLsbD 4) :
    (s.next i).pic.rAny := by
  have hany : (s.next i).pic.rAny = decide (s.pic.rIntState &&& s.pic.rIntEnable ≠ 0) := step_rAny
  rw [hany, decide_eq_true_eq]
  intro h0
  have := congrArg (BitVec.getLsbD · 4) h0
  simp only [BitVec.getLsbD_and, he, hs] at this
  exact absurd this (by decide)

/-- An entry that finds a tick pending goes on to acknowledge it. -/
theorem entry_acknowledges (hp : s.point = .entry) (ha : s.pic.rAny)
    (hs : s.pic.rIntState.getLsbD 4) (hgo : i.go) : (s.next i).point.acknowledges := by
  have hn : (s.next i).point = (s.resume i .entry).point := by
    simp only [Board.next]
    rw [if_pos (.inl hgo), hp]
  have hany : s.pic.oProcBus &&& 0x8000#32 ≠ 0 := and_any.mpr (getLsbD_oProcBus_any.trans ha)
  rw [hn, Board.resume]
  simp only [BitVec.ofNat_eq_ofNat] at hany ⊢
  rw [if_pos hany]
  simp only [Point.acknowledges, BitVec.getLsbD_and, oProcBus_timer, hs]
  rfl

instance (s : Board τ ι) (i : Clock τ ι) : Decidable (ticking.allowed s i) :=
  inferInstanceAs (Decidable (s.Enabled i ∧ (i.sources.timerInt →
    s.point.booting = false ∧ s.pic.rIntState.getLsbD 4 = false)))

end

end S6Soc.ZipOS
