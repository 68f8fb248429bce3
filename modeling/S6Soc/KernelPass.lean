import Mathlib
import S6Soc.KernelEntry
import S6Soc.KernelTimeouts

/-! One pass of `kernel_entry`: what the code between two accesses hands to the transmitter,
pushes, enables and counts. -/
namespace S6Soc.ZipOS
open Clocked Icontrol

variable {τ ι : Type}

/-- The byte that the supervisor is about to write at `io_uart`. -/
def Point.carries : Point → List (BitVec 8)
  | .txClear ch _ | .txPoll ch _ | .txWrite ch _ => [ch]
  | .echo _ v => [v]
  | .transmit _ ch | .transmitStart ch => [ch]
  | .ksetup | .start | .txDone _ | .user | .entry | .acknowledge _ | .receive _ | .echoed _
  | .transmitted _ | .audio _ | .enable _ | .audioStart _ | .transmitStarted | .restart
  | .panicked _ => []

/-- The supervisor has found the transmitter ready, and may write. -/
def Point.ready : Point → Bool
  | .txWrite .. | .echo .. | .transmit .. | .transmitStart _ => true
  | .acknowledge pic | .receive pic | .enable pic | .audioStart pic => pic.getLsbD 7
  | .ksetup | .start | .txClear .. | .txPoll .. | .txDone _ | .user | .entry | .echoed _
  | .transmitted _ | .audio _ | .transmitStarted | .restart | .panicked _ => false

/-- The transmitter's bit may be left over from before the last write. -/
def Point.stale : Point → Bool
  | .ksetup | .start | .txDone _ | .echoed _ | .transmitted _ | .transmitStarted => true
  | .txClear .. | .txPoll .. | .txWrite .. | .user | .entry | .acknowledge _ | .receive _
  | .echo .. | .transmit .. | .audio _ | .enable _ | .audioStart _ | .transmitStart _
  | .restart | .panicked _ => false

/-- The supervisor has acknowledged a tick that it has yet to count. -/
def Point.tick : Point → Bool
  | .receive pic | .echo pic _ | .echoed pic | .transmit pic _ | .transmitted pic | .audio pic
  | .panicked pic => pic.getLsbD 4
  | .ksetup | .start | .txClear .. | .txPoll .. | .txWrite .. | .txDone _ | .user | .entry
  | .acknowledge _ | .enable _ | .audioStart _ | .transmitStart _ | .transmitStarted
  | .restart => false

/-- The timer's interrupt is among those to be enabled at the end of a pass, which clears no
pending one. -/
def EnablesTimer (enableset : Word) : Prop :=
  enableset.getLsbD 20 ∧ enableset.getLsbD 4 = false

def Board.rx (s : Board τ ι) : SysPipe τ := s.kernel.pipes s.rxpipe

/-- `rxpipe` is neither of the pipes that the supervisor takes from. -/
def Board.Apart (s : Board τ ι) : Prop := s.rxpipe ≠ s.txpipe ∧ s.rxpipe ≠ s.pwmpipe

/-- `t` is `s` when the supervisor has gone on to its next access, `r` being whether it has
found the transmitter ready, `tick` whether it has a tick to count. -/
structure Follows (s t : Board τ ι) (r tick : Bool) : Prop where
  handed : t.handed = s.handed ++ t.point.carries
  pushed : t.pushed = s.pushed
  ready : t.point.ready → r
  fresh : t.point.stale = false
  timer : EnablesTimer s.enableset → EnablesTimer t.enableset
  counted : s.kernel.milliseconds.toNat < 2 ^ 31 → t.kernel.milliseconds.toNat < 2 ^ 31 ∧
    (t.point.tick = tick ∧ t.kernel.milliseconds = s.kernel.milliseconds ∨
      t.point.tick = false ∧ t.kernel.milliseconds.toNat =
        (s.kernel.milliseconds.toNat + tick.toNat) % 2 ^ 31)
  rx : s.Apart → t.rx = s.rx

variable {s t u : Board τ ι} {pic : Word} {r tick : Bool} {b : Nat}

/-- Changes that matter to none of this, before the supervisor goes on. -/
theorem Follows.of_eq (h : Follows s t r tick) (hh : u.handed = s.handed)
    (hp : u.pushed = s.pushed) (hk : u.kernel.milliseconds = s.kernel.milliseconds)
    (he : EnablesTimer u.enableset → EnablesTimer s.enableset)
    (hx : u.Apart → s.Apart ∧ s.rx = u.rx) : Follows u t r tick where
  handed := by rw [h.handed, hh]
  pushed := h.pushed.trans hp.symm
  ready := h.ready
  fresh := h.fresh
  timer := fun ht => h.timer (he ht)
  counted := by
    rw [hk]
    exact h.counted
  rx ha := (h.rx (hx ha).1).trans (hx ha).2

theorem and_twoPow_ne_zero {x : Word} (hb : b < 32) :
    x &&& BitVec.twoPow 32 b ≠ 0 ↔ x.getLsbD b := by
  rw [BitVec.and_twoPow]
  constructor
  · intro h
    by_contra hx
    exact h (if_neg hx)
  · intro hx h
    rw [if_pos hx] at h
    have := congrArg (BitVec.getLsbD · b) h
    simp [hb] at this

theorem and_uartTx {x : Word} : x &&& INT_UARTTX ≠ 0 ↔ x.getLsbD 7 :=
  and_twoPow_ne_zero (b := 7) (by decide)

theorem and_timer {x : Word} : x &&& INT_TIMER ≠ 0 ↔ x.getLsbD 4 :=
  and_twoPow_ne_zero (b := 4) (by decide)

theorem and_any {x : Word} : x &&& 0x8000#32 ≠ 0 ↔ x.getLsbD 15 :=
  and_twoPow_ne_zero (b := 15) (by decide)

theorem EnablesTimer.or {e m : Word} (h : EnablesTimer e) (hm : m.getLsbD 4 = false) :
    EnablesTimer (e ||| m) := by
  obtain ⟨h20, h4⟩ := h
  rw [EnablesTimer, BitVec.getLsbD_or, BitVec.getLsbD_or, h20, h4, hm]
  exact ⟨rfl, rfl⟩

theorem EnablesTimer.and_not {e m : Word} (h : EnablesTimer e) (hm : m.getLsbD 20 = false) :
    EnablesTimer (e &&& ~~~m) := by
  obtain ⟨h20, h4⟩ := h
  rw [EnablesTimer, getLsbD_and_not, getLsbD_and_not, h20, h4, hm]
  exact ⟨rfl, rfl⟩

theorem follows_toRestart : Follows s s.toRestart r false where
  handed := (List.append_nil _).symm
  pushed := rfl
  ready := by simp [Board.toRestart, Point.ready]
  fresh := rfl
  timer h := h.and_not rfl
  counted h := ⟨h, .inl ⟨rfl, rfl⟩⟩
  rx _ := rfl

theorem follows_message? {str : List (BitVec 8)} : Follows s (s.message? str) r false := by
  cases str with
  | nil =>
    exact ⟨(List.append_nil _).symm, rfl, by simp [Board.message?, Point.ready], rfl,
      fun h => h, fun h => ⟨h, .inl ⟨rfl, rfl⟩⟩, fun _ => rfl⟩
  | cons ch str =>
    exact ⟨rfl, rfl, by simp [Board.message?, Point.ready], rfl, fun h => h,
      fun h => ⟨h, .inl ⟨rfl, rfl⟩⟩, fun _ => rfl⟩

variable {i : Clock τ ι}

theorem bus_eq_access (hgo : i.go) (hp : s.point ≠ .user) : s.bus i = s.access s.point := by
  rw [Board.bus, if_neg hp, if_pos hgo]

theorem bus_user (hp : s.point = .user) : s.bus i = i.user.access := if_pos hp

theorem bus_idle (h : ¬ (i.go ∨ s.point = .user)) : s.bus i = none := by
  obtain ⟨hg, hu⟩ := not_or.mp h
  rw [Board.bus, if_neg hu, if_neg hg]

section
variable [DecidableEq τ] [DecidableEq ι]

/-- A pipe event changes no other pipe. -/
theorem Kernel.pipes_take {k : Kernel τ ι} {p q : ι} {pipe : SysPipe τ} {t : Option τ}
    (h : p ≠ q) : ((k.setPipe q pipe).wake t).pipes p = k.pipes p := by
  have hw : ((k.setPipe q pipe).wake t).pipes = (k.setPipe q pipe).pipes := by
    cases t <;> rfl
  rw [hw]
  exact Function.update_of_ne h _ _

theorem Kernel.milliseconds_post {k : Kernel τ ι} {events : Word}
    (h : k.milliseconds.toNat < 2 ^ 31) :
    (k.next (.post events)).milliseconds.toNat =
      (k.milliseconds.toNat + (events.getLsbD 4).toNat) % 2 ^ 31 := by
  simp only [Kernel.next, kpost, and_timer]
  generalize hm : (if events.getLsbD 4 then k.milliseconds + 1 else k.milliseconds) = ms
  have hms : ms.toNat = k.milliseconds.toNat + (events.getLsbD 4).toNat := by
    subst hm
    cases events.getLsbD 4
    · simp
    · simp [BitVec.toNat_add]
      omega
  have := Bool.toNat_le (events.getLsbD 4)
  rw [BitVec.toInt_eq_toNat_cond]
  split_ifs with h1 h2 h2
  · omega
  · omega
  · rw [BitVec.toNat_sub]
    simp only [BitVec.toNat_ofNat]
    omega
  · omega

theorem follows_toPost (ht : pic.getLsbD 4 = tick) : Follows s (s.toPost pic) r tick where
  handed := (List.append_nil _).symm
  pushed := rfl
  ready := by simp [Board.toPost, Board.toRestart, Point.ready]
  fresh := rfl
  timer h := h.and_not rfl
  counted := by
    intro h
    have hms : (s.toPost pic).kernel.milliseconds.toNat =
        (s.kernel.milliseconds.toNat + tick.toNat) % 2 ^ 31 := by
      rw [← ht]
      exact Kernel.milliseconds_post h
    refine ⟨?_, .inr ⟨rfl, hms⟩⟩
    rw [hms]
    exact Nat.mod_lt _ (by omega)
  rx _ := rfl

theorem follows_toAudio (ht : pic.getLsbD 4 = tick) : Follows s (s.toAudio pic) r tick := by
  simp only [Board.toAudio]
  split_ifs
  · refine ⟨(List.append_nil _).symm, rfl, by simp [Point.ready], rfl, fun h => h, fun h => ?_,
      fun ha => Kernel.pipes_take ha.2⟩
    have hk : (s.kernel.next (.popShort s.pwmpipe)).milliseconds = s.kernel.milliseconds :=
      Kernel.milliseconds_next (by simp)
    exact ⟨hk ▸ h, .inl ⟨ht, hk⟩⟩
  · refine ⟨(List.append_nil _).symm, rfl, by simp [Point.ready], rfl, fun h => h.and_not rfl,
      fun h => ?_, fun _ => rfl⟩
    · exact ⟨h, .inl ⟨ht, rfl⟩⟩
  · exact follows_toPost ht

theorem follows_toTransmit (ht : pic.getLsbD 4 = tick) (hx : pic.getLsbD 7 → r) :
    Follows s (s.toTransmit pic) r tick := by
  simp only [Board.toTransmit]
  split_ifs with hp
  · refine ⟨rfl, rfl, fun _ => hx (and_uartTx.mp hp), rfl, fun h => h.or rfl, fun h => ?_,
      fun ha => Kernel.pipes_take ha.1⟩
    · have hk : (s.kernel.next (.pop s.txpipe)).milliseconds = s.kernel.milliseconds :=
        Kernel.milliseconds_next (by simp)
      exact ⟨hk ▸ h, .inl ⟨ht, hk⟩⟩
  · exact (follows_toAudio ht).of_eq rfl rfl rfl (fun h => h.and_not rfl) fun ha => ⟨ha, rfl⟩
  · exact follows_toAudio ht

theorem follows_toReceive (ht : pic.getLsbD 4 = tick) (hx : pic.getLsbD 7 → r) :
    Follows s (s.toReceive pic) r tick := by
  unfold Board.toReceive
  split_ifs with hp
  · refine ⟨(List.append_nil _).symm, rfl, hx, rfl, fun h => h, fun h => ?_, fun _ => rfl⟩
    exact ⟨h, .inl ⟨ht, rfl⟩⟩
  · exact follows_toTransmit ht hx

theorem follows_button (ht : pic.getLsbD 4 = tick) (hx : pic.getLsbD 7 → r) {spio : Word} :
    Follows s (s.button pic spio) r tick := by
  have he : EnablesTimer s.enableset →
      EnablesTimer (s.enableset &&& ~~~(intEnablev INT_BUTTON)) := fun h => h.and_not rfl
  simp only [Board.button]
  split_ifs
  · refine ⟨(List.append_nil _).symm, rfl, by simp [Point.ready], rfl, he, fun h => ?_,
      fun _ => rfl⟩
    exact ⟨h, .inl ⟨ht, rfl⟩⟩
  · refine (follows_toReceive ?_ fun h => ?_).of_eq rfl rfl rfl he fun ha => ⟨ha, rfl⟩
    · rw [getLsbD_and_not, ht]
      exact Bool.and_true _
    · exact hx (getLsbD_of_and_not h)
  · exact (follows_toReceive ht hx).of_eq rfl rfl rfl he fun ha => ⟨ha, rfl⟩
  · exact follows_toReceive ht hx

theorem follows_tick (ht : pic.getLsbD 4 = tick) (hx : pic.getLsbD 7 → r) {spio spio' : Word} :
    Follows s ((s.tick pic spio).1.button (s.tick pic spio).2 spio') r tick := by
  have he : EnablesTimer s.enableset →
      EnablesTimer (s.enableset ||| intEnablev INT_BUTTON) := fun h => h.or rfl
  have ht' : (pic ||| SWINT_CLOCK).getLsbD 4 = tick := by
    rw [BitVec.getLsbD_or, ht]
    exact Bool.or_false _
  have hx' : (pic ||| SWINT_CLOCK).getLsbD 7 → r := by
    intro h
    refine hx ?_
    rw [BitVec.getLsbD_or] at h
    exact (Bool.or_false _).symm.trans h
  simp only [Board.tick]
  split_ifs
  · exact (follows_button ht' hx').of_eq rfl rfl rfl (fun h => h) fun ha => ⟨ha, rfl⟩
  · exact (follows_button ht' hx').of_eq rfl rfl rfl he fun ha => ⟨ha, rfl⟩
  · exact (follows_button ht' hx').of_eq rfl rfl rfl (fun h => h) fun ha => ⟨ha, rfl⟩
  · exact (follows_button ht hx).of_eq rfl rfl rfl (fun h => h) fun ha => ⟨ha, rfl⟩
  · exact (follows_button ht hx).of_eq rfl rfl rfl he fun ha => ⟨ha, rfl⟩
  · exact (follows_button ht hx).of_eq rfl rfl rfl (fun h => h) fun ha => ⟨ha, rfl⟩
  · exact follows_button ht hx

def SysPipe.pushes (p : SysPipe τ) (bytes : List (BitVec 8)) : SysPipe τ :=
  bytes.foldl (fun p val => (kpushSyspipe p val).1) p

/-- The byte that the supervisor finds in what it reads at `io_uart`, and has room for. -/
def storedByte (p : SysPipe τ) (v : Word) : List (BitVec 8) :=
  if v &&& ~~~0x7f#32 = 0 ∧ ¬ p.Full then [v.setWidth 8] else []

/-- The board when what was read at `io_uart` has been pushed. -/
def Board.stored (s : Board τ ι) (v : Word) : Board τ ι :=
  { s with
    kernel := if v &&& ~~~0x7f#32 = 0 then s.kernel.next (.push s.rxpipe (v.setWidth 8))
      else s.kernel
    pushed := s.pushed ++ storedByte s.rx v }

theorem stored_eq {v : Word} : s.stored v = if v &&& ~~~0x7f#32 = 0 then
      { s with
        kernel := s.kernel.next (.push s.rxpipe (v.setWidth 8))
        pushed := if s.rx.Full then s.pushed else s.pushed ++ [v.setWidth 8] }
    else s := by
  simp only [Board.stored, storedByte]
  split_ifs <;> simp_all

theorem follows_echo {val : BitVec 8} (ht : pic.getLsbD 4 = tick) (hx : pic.getLsbD 7 → r) :
    Follows s (if pic &&& INT_UARTTX ≠ 0 then
        { s with handed := s.handed ++ [val], point := .echo pic val }
      else s.toTransmit pic) r tick := by
  split_ifs with hp
  · refine ⟨rfl, rfl, fun _ => hx (and_uartTx.mp hp), rfl, fun h => h, fun h => ?_, fun _ => rfl⟩
    exact ⟨h, .inl ⟨ht, rfl⟩⟩
  · exact follows_toTransmit ht hx

theorem follows_received? (ht : pic.getLsbD 4 = tick) (hx : pic.getLsbD 7 → r) {v : Word} :
    Follows (s.stored v) (s.received? pic v) r tick := by
  rw [stored_eq, Board.received?]
  by_cases hv : v &&& ~~~0x7f#32 = 0
  · rw [if_pos hv, if_pos hv]
    exact follows_echo ht hx
  · rw [if_neg hv, if_neg hv]
    exact follows_toTransmit ht hx

/-- It is pushed as the byte that it is, if there is room. -/
theorem stored_rx {v : Word} (hf : ¬ s.rx.Full) :
    (s.stored v).rx = s.rx.pushes (storedByte s.rx v) := by
  rw [stored_eq, storedByte]
  split_ifs with hv h h
  · have hw : ∀ t : Option τ, ((s.kernel.setPipe s.rxpipe (kpushSyspipe s.rx (v.setWidth 8)).1).wake
        t).pipes s.rxpipe = (kpushSyspipe s.rx (v.setWidth 8)).1 := by
      intro t
      cases t <;> exact Function.update_self ..
    exact hw _
  · exact absurd ⟨hv, hf⟩ h
  · exact absurd h.1 hv
  · rfl

theorem follows_toTransmitStart (hx : pic.getLsbD 7 → r) :
    Follows s (s.toTransmitStart pic) r false := by
  simp only [Board.toTransmitStart]
  split_ifs with hp
  · refine ⟨rfl, rfl, fun _ => hx (and_uartTx.mp hp), rfl, fun h => h.or rfl, fun h => ?_,
      fun ha => Kernel.pipes_take ha.1⟩
    · have hk : (s.kernel.next (.pop s.txpipe)).milliseconds = s.kernel.milliseconds :=
        Kernel.milliseconds_next (by simp)
      exact ⟨hk ▸ h, .inl ⟨rfl, hk⟩⟩
  · exact follows_toRestart.of_eq rfl rfl rfl (fun h => h.and_not rfl) fun ha => ⟨ha, rfl⟩
  · exact follows_toRestart

theorem follows_toAudioStart (hx : pic.getLsbD 7 → r) :
    Follows s (s.toAudioStart pic) r false := by
  simp only [Board.toAudioStart]
  split_ifs
  · refine ⟨(List.append_nil _).symm, rfl, hx, rfl, fun h => h, fun h => ?_,
      fun ha => Kernel.pipes_take ha.2⟩
    have hk : (s.kernel.next (.popShort s.pwmpipe)).milliseconds = s.kernel.milliseconds :=
      Kernel.milliseconds_next (by simp)
    exact ⟨hk ▸ h, .inl ⟨rfl, hk⟩⟩
  · exact follows_toTransmitStart hx

end

end S6Soc.ZipOS
