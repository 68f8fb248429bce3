import Mathlib
import S6Soc.Clocked
import S6Soc.WbQspiFlash

/-! What `wbqspiflashp` sends to the flash: a page program or an erase only after a write
enable, with no write going on, and for a request made while protection was off. -/
namespace S6Soc.WbQspiFlash
open Clocked

/-- The first word after the flash has been selected, and how it is sent. -/
structure Command where
  spd : Bool
  len : BitVec 2
  spiIn : BitVec 32

def Command.byte (c : Command) : BitVec 8 := c.spiIn.extractLsb' 24 8

/-- Page program, quad page program and erase. -/
def Command.alters (c : Command) : Bool :=
  !c.spd && (c.byte == 0x02 || c.byte == 0x32 || c.byte == 0xd8)

/-- These and the status write keep the flash at work. -/
def Command.lasts (c : Command) : Bool := c.alters || (!c.spd && c.byte == 0x01)

def Command.writeEnable (c : Command) : Bool := !c.spd && c.len == 0 && c.byte == 0x06

def State.offered (s : State) : Command := ⟨s.spiSpd, s.spiLen, s.spiIn⟩

/-- The flash is selected in this clock. -/
def State.starts (s : State) : Bool := s.spi.state == .idle && s.spi.oSck && s.spiWr

/-- Another word follows in this clock. -/
def State.continues (s : State) : Bool :=
  (s.spi.state == .ready || s.spi.state == .holding) && s.spi.oSck && !s.spi.oBusy && s.spiWr

/-- The controller with a view of the flash: the last command and whether more words
followed it, whether the flash is at work on a program, an erase or a status write, and
whether writes were protected when the request at hand was made. -/
structure Watched where
  ctl : State
  last : Option Command
  more : Bool
  busy : Bool
  asked : Bool

/-- The flash is being read for its status, and has got past the command. -/
def Watched.status (w : Watched) : Bool :=
  match w.last with
  | some c => !c.spd && c.byte == 0x05 && (w.more || c.len != 0)
  | none => false

/-- The bus and the pins, and whether the flash finishes what it is doing. -/
structure Event where
  bus : Input
  done : Bool

def Watched.next (w : Watched) (x : Event) : Watched :=
  { ctl := w.ctl.next x.bus
    last := if w.ctl.starts then some w.ctl.offered else w.last
    more := if w.ctl.starts then false else w.more || w.ctl.continues
    busy := (w.ctl.starts && w.ctl.offered.lasts) || (w.busy && !x.done)
    asked :=
      if w.ctl.state = .idle ∨ w.ctl.state = .rdidle then w.ctl.writeProtect else w.asked }

/-- The last bit of a status byte is zero only when the flash is not at work. -/
def Watched.Truthful (w : Watched) (x : Event) : Prop :=
  w.ctl.spi.state = .ready → w.ctl.spi.oSck = true → w.status = true →
    x.bus.iQspiDat.getLsbD 1 = false → w.busy = false

structure Watched.Init (w : Watched) : Prop where
  ctl : PowerUp w.ctl
  last : w.last = none
  more : w.more = false
  busy : w.busy = false

def watch : System Watched Event where
  init := Watched.Init
  allowed := Watched.Truthful
  next := Watched.next

def Watched.Enabled (w : Watched) : Prop :=
  w.more = false ∧ ∃ c, w.last = some c ∧ c.writeEnable = true

/-- Nothing that alters the flash goes out now, or all is as it should be. -/
def Watched.Guarded (w : Watched) : Prop :=
  w.ctl.starts = true → w.ctl.offered.alters = true →
    w.asked = false ∧ w.busy = false ∧ w.Enabled

/-- No erase is asked for in quad read mode while writes are protected. -/
def Watched.Unasked (w : Watched) (x : Event) : Prop :=
  w.ctl.state = .rdidle → x.bus.iWbCtrlStb = true → x.bus.iWbDataStb = false →
    x.bus.iWbWe = true → x.bus.iWbAddr.extractLsb' 0 2 = 0 → x.bus.iWbData.getLsbD 31 = true →
      w.ctl.writeProtect = false

/-- A request that ends the polling of the status does not go away before it is taken. -/
def Watched.Patient (w : Watched) (x : Event) : Prop :=
  w.ctl.state = .idleCheckWip → w.ctl.spiWr = false → w.ctl.writeInProgress = true →
    w.ctl.spi.state ≠ .start → w.ctl.spi.state ≠ .bits →
      x.bus.iWbCyc = true ∧ (x.bus.iWbDataStb = true ∨ x.bus.iWbCtrlStb = true)

structure Watched.Cautious (w : Watched) (x : Event) : Prop where
  erase : w.Unasked x
  polling : w.Patient x

@[simp] theorem byte_word (spd : Bool) (len : BitVec 2) (b : BitVec 8) (r : BitVec 24) :
    (Command.mk spd len (word b r)).byte = b := by
  apply BitVec.eq_of_getLsbD_eq
  intro k hk
  simp only [Command.byte, word, BitVec.getLsbD_extractLsb', BitVec.getLsbD_append]
  rw [if_neg (by omega)]
  simp [hk]

@[simp] theorem byte_zero (spd : Bool) (len : BitVec 2) : (Command.mk spd len 0).byte = 0 := by
  simp [Command.byte]

theorem Command.alters_of_lasts {c : Command} (h : c.lasts = false) : c.alters = false := by
  simp only [Command.lasts, Bool.or_eq_false_iff] at h
  exact h.1

variable {w : Watched} {x : Event} {s : State}

/-- What might go out does not keep the flash busy, or is known to. -/
def State.Harmless (s : State) : Prop :=
  s.spiWr = true → s.offered.alters = false ∧ (s.offered.lasts = true → s.writeInProgress = true)

/-- The status is on its way, or the flash has been asked for it. -/
structure Watched.Polling (w : Watched) : Prop where
  status : w.status = true
  single : w.ctl.spi.Single
  valid : w.ctl.spi.oValid = true → w.ctl.spi.oWord.getLsbD 0 = false → w.busy = false

/-- The driver is offered a command, at single speed. -/
def State.Sends (s : State) (len : BitVec 2) (byte : BitVec 8) : Prop :=
  s.spiWr = true ∧ s.spiSpd = false ∧ s.spiLen = len ∧ s.offered.byte = byte

/-- A request for a write was made while that was allowed. -/
def Watched.Allowed (w : Watched) (s : State) : Prop :=
  s.spifCmd = true → s.spifCtrl = false → w.asked = false

/-- What holds of the registers `s` of the controller where it stands. -/
def Watched.At (w : Watched) (s : State) : Place → Prop
  | .reset | .idle => w.ctl.spi.Quiet ∧ s.spiWr = false
  | .resetQuadmode => w.ctl.spi.Quiet ∧ s.spiWr = false ∧ s.spiHold = false
  | .rdidle => w.ctl.spi.Quiet ∧ s.spiWr = false ∧ s.writeInProgress = false
  | .wbdecode => s.Harmless ∧ s.writeInProgress = false ∧ w.asked = s.writeProtect ∧
      (s.spifCtrl = true → s.spifCmd = true → s.spifAddr.extractLsb' 0 2 = 0 →
        s.spifData.getLsbD 31 = true → w.asked = false)
  | .rdDummy | .qrdAddress | .qrdDummy | .readCmd | .readData | .waitTilRdidle =>
      s.Harmless ∧ s.writeInProgress = false
  | .readId => s.Harmless ∧ (s.spiWr = true → w.ctl.spi.state ≠ .idle)
  | .readIdCmd | .waitTilIdle | .eraseWen | .clearStatus |
      .writeConfig | .writeStatus => s.Harmless
  | .readConfig => s.Harmless ∧ s.spiHold = false ∧
      ((w.ctl.spi.Quiet ∧ s.spiWr = true) ∨ (s.spiWr = false ∧ w.ctl.spi.Lone))
  | .readStatus => s.spiHold = false ∧ s.spiSpd = false ∧
      ((w.ctl.spi.Quiet ∧ s.Sends 1 0x05) ∨ (s.spiWr = false ∧ w.ctl.spi.Lone ∧ w.Polling))
  | .waitWipClear => w.ctl.spi.Quiet ∧ s.spiWr = false ∧ w.Allowed s
  | .checkWipClear => s.spiHold = true ∧ s.spiWr = true ∧ s.spiSpd = false ∧ w.Allowed s ∧
      ((w.ctl.spi.Quiet ∧ s.Sends 1 0x05) ∨ (w.Polling ∧ w.ctl.spi.Open))
  | .checkWipDone => s.spiWr = false ∧ s.writeInProgress = false ∧ w.Allowed s
  | .wen => s.writeInProgress = false ∧ w.asked = false ∧
      ((w.ctl.spi.Quiet ∧ s.Sends 0 0x06) ∨ (s.spiWr = false ∧ w.Enabled))
  | .pp | .qpp => w.asked = false ∧
      ((w.ctl.spi.Quiet ∧ w.Enabled ∧ w.busy = false ∧
          (s.spiWr = true → s.spiHold = true)) ∨
        (s.spiHold = true ∧ w.ctl.spi.state = .start ∧ w.ctl.spi.oBusy = true))
  | .wrData | .wrBusCycle => s.spiHold = true ∧ w.ctl.spi.Open
  | .eraseCmd => w.asked = false ∧ w.busy = false ∧
      ((w.ctl.spi.Quiet ∧ s.Sends 0 0x06) ∨ (s.spiWr = false ∧ w.Enabled))
  | .eraseBlock => s.writeInProgress = true ∧ s.spiHold = false ∧
      ((w.ctl.spi.Quiet ∧ s.spiWr = true ∧ w.asked = false ∧ w.busy = false ∧ w.Enabled) ∨
        (s.spiWr = false ∧ w.ctl.spi.Lone))
  | .idleCheckWip => s.spiHold = false ∧ s.spiSpd = false ∧
      ((w.ctl.spi.Quiet ∧ s.Sends 1 0x05) ∨
        (w.Polling ∧ w.ctl.spi.state ≠ .holding ∧
          (w.ctl.spi.state = .stop ∨ w.ctl.spi.state = .stopB ∨ w.ctl.spi.state = .idle →
            s.spiWr = false) ∧
          (w.ctl.spi.state = .ready → w.ctl.spi.oSck = true → s.spiWr = true →
            w.ctl.spi.oBusy = false)))

/-- A page program has gone out, and the controller is about to note it. -/
def programming : Place → Bool
  | .pp | .qpp | .wrData | .wrBusCycle => true
  | _ => false

structure Watched.Safe (w : Watched) : Prop where
  spi : LlQspi.Sound w.ctl.spi
  override : w.ctl.state ≠ .reset → w.ctl.state ≠ .resetQuadmode → w.ctl.spifOverride = false
  busy : w.busy = true → w.ctl.writeInProgress = true ∨ programming w.ctl.state = true
  place : w.At w.ctl w.ctl.state

theorem starts_of_writes (h : s.spiWr = false) : s.starts = false := by
  simp [State.starts, h]

theorem continues_of_writes (h : s.spiWr = false) : s.continues = false := by
  simp [State.continues, h]

theorem starts_writes (h : s.starts = true) : s.spiWr = true := by
  simp only [State.starts, Bool.and_eq_true] at h
  exact h.2

theorem State.Sends.starts {len : BitVec 2} {b : BitVec 8} (h : s.Sends len b)
    (hs : LlQspi.Sound s.spi) (hq : s.spi.Quiet) : s.starts = true := by
  simp [State.starts, hq.1, (hs.idle hq.1).1, h.1]

theorem Watched.asked_next (h₁ : w.ctl.state ≠ .idle) (h₂ : w.ctl.state ≠ .rdidle) :
    (w.next x).asked = w.asked := by
  simp [Watched.next, h₁, h₂]

theorem Watched.busy_next (h : w.ctl.starts = true → w.ctl.offered.lasts = false)
    (hb : (w.next x).busy = true) : w.busy = true := by
  simp only [Watched.next, Bool.or_eq_true, Bool.and_eq_true] at hb
  rcases hb with ⟨hs, hl⟩ | ⟨hb, -⟩
  · exact absurd hl (by simp [h hs])
  · exact hb

theorem Watched.idle_next (h : w.ctl.starts = true → w.ctl.offered.lasts = false)
    (hb : w.busy = false) : (w.next x).busy = false := by
  cases hn : (w.next x).busy with
  | false => rfl
  | true => exact absurd (busy_next h hn) (by simp [hb])

theorem Watched.Enabled.next (h : w.Enabled) (hw : w.ctl.spiWr = false) : (w.next x).Enabled := by
  obtain ⟨hm, hl⟩ := h
  simp only [Watched.Enabled, Watched.next, starts_of_writes hw, continues_of_writes hw, hm]
  exact ⟨rfl, hl⟩

theorem State.Sends.enabled (h : w.ctl.Sends 0 0x06) (hs : LlQspi.Sound w.ctl.spi)
    (hq : w.ctl.spi.Quiet) : (w.next x).Enabled := by
  have hst := h.starts hs hq
  obtain ⟨-, hspd, hlen, hbyte⟩ := h
  simp only [Watched.Enabled, Watched.next, hst, if_true]
  refine ⟨trivial, _, rfl, ?_⟩
  simp only [Command.writeEnable, hbyte]
  simp [State.offered, hspd, hlen]

theorem State.Sends.harmless {len : BitVec 2} {b : BitVec 8} (h : s.Sends len b)
    (hb : b = 0x06 ∨ b = 0x05) : s.offered.lasts = false := by
  rcases hb with rfl | rfl <;> simp [Command.lasts, Command.alters, h.2.2.2]

/-- The flash has been asked for its status. -/
theorem State.Sends.polling (h : w.ctl.Sends 1 0x05) (hs : LlQspi.Sound w.ctl.spi)
    (hq : w.ctl.spi.Quiet) : (w.next x).Polling := by
  have hst := h.starts hs hq
  obtain ⟨hw, hspd, hlen, hbyte⟩ := h
  obtain ⟨hn, -, hr, hv⟩ := hs.begins (i := w.ctl.driver x.bus) hq.1 hw
  have hspi : (w.next x).ctl.spi = w.ctl.spi.next (w.ctl.driver x.bus) := rfl
  refine ⟨?_, ⟨fun _ => hr.trans hspd, fun h => ?_⟩, fun h => ?_⟩
  · simp only [Watched.status, Watched.next, hst, if_true, hbyte]
    simp [State.offered, hspd, hlen]
  · rw [hspi, hn] at h
    simp at h
  · rw [hspi, hv] at h
    cases h

/-- The status keeps coming, a byte after the other. -/
theorem Watched.Polling.next (h : w.Polling) (hs : LlQspi.Sound w.ctl.spi) (ha : w.Truthful x)
    (hw : w.ctl.spi.state = .idle → w.ctl.spiWr = false) (hspd : w.ctl.spiSpd = false) :
    (w.next x).Polling := by
  have hst : w.ctl.starts = false := by
    by_cases hp : w.ctl.spi.state = .idle
    · exact starts_of_writes (hw hp)
    · simp [State.starts, hp]
  have hspi : (w.next x).ctl.spi = w.ctl.spi.next (w.ctl.driver x.bus) := rfl
  have hbusy : w.busy = false → (w.next x).busy = false :=
    Watched.idle_next fun h => absurd h (by simp [hst])
  have hstatus : (w.next x).status = true := by
    have hold := h.status
    cases hl : w.last with
    | none => simp [Watched.status, hl] at hold
    | some c =>
      simp only [Watched.status, hl, Watched.next, hst, Bool.false_eq_true, if_false,
        Bool.and_eq_true, Bool.or_eq_true] at hold ⊢
      exact ⟨hold.1, hold.2.imp_left Or.inl⟩
  refine ⟨hstatus, hs.single_next h.single hspd, fun hv hz => hbusy ?_⟩
  obtain ⟨hr, hk, hword⟩ := hs.valid_next hv
  rw [hspi, hword, LlQspi.sampled_zero (h.single.mode (Or.inr (Or.inl hr)))] at hz
  exact ha hr hk h.status hz

/-- What the next clock has to keep, its registers being `s`. -/
structure Watched.Carried (w : Watched) (x : Event) (s : State) : Prop where
  busy : (w.next x).busy = true → s.writeInProgress = true ∨ programming s.state = true
  place : (w.next x).At s s.state

theorem Watched.at_next (h : (w.next x).At (act w.ctl x.bus) p) :
    (w.next x).At (w.next x).ctl p := by
  cases p <;> exact h

theorem Watched.Carried.ite {c : Prop} [Decidable c] {a b : State} (h₁ : c → w.Carried x a)
    (h₂ : ¬ c → w.Carried x b) : w.Carried x (if c then a else b) := by
  split_ifs with hc
  · exact h₁ hc
  · exact h₂ hc

/-- The controller stays where it is, or goes where it is told. -/
theorem Watched.Carried.of_state {p : Place} (hs : s.state = p)
    (hb : (w.next x).busy = true → s.writeInProgress = true ∨ programming p = true)
    (hat : (w.next x).At s p) : w.Carried x s := by
  subst hs
  exact ⟨hb, hat⟩

theorem State.harmless_of (h : s.spiWr = true → s.offered.lasts = false) : s.Harmless := by
  intro hw
  exact ⟨Command.alters_of_lasts (h hw), fun hl => absurd hl (by simp [h hw])⟩

theorem Watched.Safe.at_harmless (h : w.Safe) (hh : w.ctl.Harmless)
    (hp : programming w.ctl.state = false) (hb : (w.next x).busy = true) :
    w.ctl.writeInProgress = true := by
  simp only [Watched.next, Bool.or_eq_true, Bool.and_eq_true] at hb
  rcases hb with ⟨hs, hl⟩ | ⟨hb, -⟩
  · exact (hh (starts_writes hs)).2 hl
  · simpa [hp] using h.busy hb

theorem State.harmless_of_writes (h : s.spiWr = false) : s.Harmless := by
  intro hw
  rw [h] at hw
  cases hw

theorem Watched.Safe.at_rest (h : w.Safe) (hw : w.ctl.spiWr = false)
    (hp : programming w.ctl.state = false) (hb : (w.next x).busy = true) :
    w.ctl.writeInProgress = true :=
  h.at_harmless (State.harmless_of_writes hw) hp hb

theorem Watched.Safe.stopped (h : w.Safe) (h₁ : w.ctl.state ≠ .reset)
    (h₂ : w.ctl.state ≠ .resetQuadmode) (hs : w.ctl.stopped = true) :
    w.ctl.spi.Quiet ∧ w.ctl.spiWr = false := by
  simp only [State.stopped, State.oQspiCsN, h.override h₁ h₂, Bool.false_eq_true, if_false,
    Bool.and_eq_true, Bool.not_eq_true'] at hs
  exact ⟨h.spi.quiet hs.1.1 hs.1.2, hs.2⟩

theorem Watched.Safe.rests (h : w.Safe) (hq : w.ctl.spi.state = .idle) (hw : w.ctl.spiWr = false) :
    (w.next x).ctl.spi.Quiet :=
  h.spi.rests (i := w.ctl.driver x.bus) hq hw

theorem carried_reset (h : w.Safe) (hp : w.ctl.state = .reset) :
    w.Carried x (onReset w.ctl) := by
  obtain ⟨hq, hw⟩ : w.At w.ctl .reset := hp ▸ h.place
  exact ⟨fun hb => Or.inl (h.at_rest hw (by simp [hp, programming]) hb), h.rests hq.1 hw, rfl, rfl⟩

theorem Watched.Safe.begins (h : w.Safe) (hq : w.ctl.spi.Quiet) (hw : w.ctl.spiWr = true) :
    (w.next x).ctl.spi.state = .start ∧ (w.next x).ctl.spi.oBusy = true := by
  obtain ⟨hp, hb, -⟩ := h.spi.begins (i := w.ctl.driver x.bus) hq.1 hw
  exact ⟨hp, hb⟩

theorem Watched.Safe.lone_next (h : w.Safe) (hl : w.ctl.spi.Lone) (hw : w.ctl.spiWr = false)
    (hh : w.ctl.spiHold = false) : (w.next x).ctl.spi.Lone :=
  h.spi.lone_next (i := w.ctl.driver x.bus) hl hw hh

/-- One word has gone out, or is about to: afterwards nothing follows it. -/
theorem Watched.Safe.sent (h : w.Safe) (hh : w.ctl.spiHold = false)
    (hs : (w.ctl.spi.Quiet ∧ w.ctl.spiWr = true) ∨ (w.ctl.spiWr = false ∧ w.ctl.spi.Lone)) :
    (w.next x).ctl.spi.Lone := by
  rcases hs with ⟨hq, hw⟩ | ⟨hw, hl⟩
  · exact LlQspi.lone_of_start (h.begins hq hw).1
  · exact h.lone_next hl hw hh

theorem carried_resetQuadmode (h : w.Safe) (hp : w.ctl.state = .resetQuadmode) :
    w.Carried x (onResetQuadmode w.ctl) := by
  obtain ⟨hq, hw, hh⟩ : w.At w.ctl .resetQuadmode := hp ▸ h.place
  have hb := h.at_rest (x := x) hw (by simp [hp, programming])
  unfold onResetQuadmode
  refine .ite (fun _ => ⟨fun h => Or.inl (hb h), ?_⟩) fun _ => ⟨fun h => Or.inl (hb h), ?_⟩
  · refine ⟨State.harmless_of fun _ => ?_, hh, Or.inl ⟨h.rests hq.1 hw, rfl⟩⟩
    simp [State.offered, State.send, Command.lasts, Command.alters]
  · simp only [hp]
    exact ⟨h.rests hq.1 hw, hw, hh⟩

theorem carried_readConfig (h : w.Safe) (hp : w.ctl.state = .readConfig) :
    w.Carried x (onReadConfig w.ctl x.bus) := by
  obtain ⟨hharm, hhold, hs⟩ : w.At w.ctl .readConfig := hp ▸ h.place
  have hb := h.at_harmless (x := x) hharm (by simp [hp, programming])
  have hlone := h.sent (x := x) hhold hs
  unfold onReadConfig
  refine .ite (fun hc => ⟨fun h => Or.inl (hb h), ?_⟩) fun _ => ⟨fun h => Or.inl (hb h), ?_⟩
  · simp only [Bool.and_eq_true, Bool.not_eq_true'] at hc
    rcases hs with ⟨-, hw⟩ | ⟨hw, hl⟩
    · exact absurd hw (by simp [hc.2])
    · exact ⟨h.rests (h.spi.lone_quiet hl hc.1).1 hw, rfl⟩
  · simp only [State.keepReq, hp]
    exact ⟨State.harmless_of_writes rfl, rfl, Or.inr ⟨rfl, hlone⟩⟩

/-- Commands that only read, or that only make ready. -/
theorem Command.lasts_eq_false {c : Command}
    (h : c.byte ≠ 0x01 ∧ c.byte ≠ 0x02 ∧ c.byte ≠ 0x32 ∧ c.byte ≠ 0xd8) : c.lasts = false := by
  obtain ⟨h₁, h₂, h₃, h₄⟩ := h
  simp only [Command.lasts, Command.alters, beq_eq_false_iff_ne.mpr h₁, beq_eq_false_iff_ne.mpr h₂,
    beq_eq_false_iff_ne.mpr h₃, beq_eq_false_iff_ne.mpr h₄, Bool.or_false, Bool.and_false]

theorem harmless_word {b : BitVec 8} {r : BitVec 24} (hs : s.spiIn = word b r)
    (hb : b ≠ 0x01 ∧ b ≠ 0x02 ∧ b ≠ 0x32 ∧ b ≠ 0xd8) : s.Harmless := by
  refine State.harmless_of fun _ => Command.lasts_eq_false ?_
  rwa [State.offered, hs, byte_word]

theorem harmless_zero (hs : s.spiIn = 0) : s.Harmless := by
  refine State.harmless_of fun _ => Command.lasts_eq_false ?_
  rw [State.offered, hs, byte_zero]
  decide

theorem harmless_spd (hs : s.spiSpd = true) : s.Harmless := by
  refine State.harmless_of fun _ => ?_
  simp [State.offered, hs, Command.lasts, Command.alters]

theorem State.sends_word {len : BitVec 2} {b : BitVec 8} {r : BitVec 24} (hw : s.spiWr = true)
    (hs : s.spiSpd = false) (hl : s.spiLen = len) (hi : s.spiIn = word b r) : s.Sends len b :=
  ⟨hw, hs, hl, by simp [State.offered, hi]⟩

theorem carried_startRead {s : State} {addr : BitVec 22}
    (hb : (w.next x).busy = true → s.writeInProgress = true) (hw : s.writeInProgress = false) :
    w.Carried x (s.startRead addr) := by
  unfold State.startRead
  refine .ite (fun _ => ⟨fun h => Or.inl (hb h), ?_⟩) fun _ => ⟨fun h => Or.inl (hb h), ?_⟩
  · exact ⟨harmless_word rfl (by decide), hw⟩
  · exact ⟨harmless_word rfl (by decide), hw⟩

/-- The bus does not matter to the flash. -/
theorem Watched.Carried.stalled {b : Bool} (h : w.Carried x s) :
    w.Carried x { s with oWbStall := b } := by
  refine ⟨h.busy, ?_⟩
  have hat := h.place
  revert hat
  cases s.state <;> exact id

theorem carried_idleErase (hp : w.ctl.state = .idle) {s' : State}
    (hb : (w.next x).busy = true → w.ctl.writeInProgress = true)
    (hs : s' = { w.ctl.listen x.bus with oInterrupt := false, spiSpd := false })
    (hrest : (w.next x).ctl.spi.Quiet) (hd : ¬ x.bus.iWbDataStb = true)
    (hc : x.bus.iWbCtrlStb = true) :
    w.Carried x (idleErase w.ctl s' x.bus) := by
  subst hs
  have hasked : (w.next x).asked = w.ctl.writeProtect := by simp [Watched.next, hp]
  unfold idleErase
  refine .ite (fun hwip => .ite (fun hwp => ?_) fun _ => ?_) fun _ => .ite (fun _ => ?_) fun _ => ?_
  · have hidle : (w.next x).busy = false := by
      simp only [Bool.and_eq_true, Bool.not_eq_true'] at hwip
      cases hn : (w.next x).busy with
      | false => rfl
      | true => exact absurd (hb hn) (by simp [hwip.2])
    refine ⟨fun h => Or.inl (hb h), hasked.trans (by simpa using hwp), hidle, Or.inl ⟨hrest, ?_⟩⟩
    exact State.sends_word rfl rfl rfl rfl
  · refine ⟨fun h => Or.inl (hb h), ?_⟩
    simp only [State.listen, hp]
    exact ⟨hrest, rfl⟩
  · refine ⟨fun h => Or.inl (hb h), hrest, rfl, fun _ hctrl => ?_⟩
    simp [State.listen, hc, hd] at hctrl
  · refine ⟨fun h => Or.inl (hb h), ?_⟩
    simp only [State.listen, hp]
    exact ⟨hrest, rfl⟩

theorem carried_idle (h : w.Safe) (hp : w.ctl.state = .idle) :
    w.Carried x (onIdle w.ctl x.bus) := by
  obtain ⟨hq, hw⟩ : w.At w.ctl .idle := hp ▸ h.place
  have hb := h.at_rest (x := x) hw (by simp [hp, programming])
  have hrest := h.rests (x := x) hq.1 hw
  have hasked : (w.next x).asked = w.ctl.writeProtect := by simp [Watched.next, hp]
  -- the request is answered, or there is none
  have hstay (s : State) (hs : s.state = w.ctl.state) (hwr : s.spiWr = false)
      (hwip : s.writeInProgress = w.ctl.writeInProgress) : w.Carried x s := by
    refine ⟨fun h => Or.inl (hwip.trans (hb h)), ?_⟩
    rw [hs, hp]
    exact ⟨hrest, hwr⟩
  unfold onIdle
  refine .ite (fun _ => ?_) fun hd => ?_
  · refine .ite (fun _ => ?_) fun hwe => ?_
    · refine .ite (fun hc => ?_) fun hc => .ite (fun _ => ?_) fun hwp => ?_
      · simp only [Bool.and_eq_true, Bool.not_eq_true'] at hc
        refine ⟨fun h => Or.inl (hb h), hc.2, hasked.trans hc.1, Or.inl ⟨hrest, ?_⟩⟩
        exact State.sends_word rfl rfl rfl rfl
      · exact hstay _ rfl rfl rfl
      · exact ⟨fun h => Or.inl (hb h), hrest, rfl, fun _ _ => hasked.trans (by simpa using hwp)⟩
    · refine .ite (fun hc => ?_) fun _ => ?_
      · have hwip : w.ctl.writeInProgress = false := by simpa using hc
        have hr : w.Carried x (State.startRead
            { w.ctl.listen x.bus with oInterrupt := false, spiSpd := false } x.bus.iWbAddr) :=
          carried_startRead hb hwip
        exact hr.stalled
      · exact ⟨fun h => Or.inl (hb h), hrest, rfl, fun hcmd => absurd hcmd hwe⟩
  · refine .ite (fun hc => ?_) fun _ => ?_
    · simp only [Bool.and_eq_true] at hc
      refine .ite (fun _ => carried_idleErase hp hb rfl hrest hd hc.1) fun _ => ?_
      refine .ite (fun _ => ?_) fun _ => .ite (fun _ => ?_) fun _ => hstay _ rfl rfl rfl
      · exact ⟨fun h => Or.inl (hb h), harmless_word rfl (by decide)⟩
      · exact ⟨fun h => Or.inl (hb h), harmless_word rfl (by decide)⟩
    · refine .ite (fun _ => ?_) fun _ => .ite (fun _ => ?_) fun _ => hstay _ rfl rfl rfl
      · refine .ite (fun _ => .ite (fun _ => ?_) fun _ => hstay _ rfl rfl rfl) fun _ =>
          .ite (fun _ => ?_) fun _ => .ite (fun _ => ?_) fun _ => ?_
        · exact ⟨fun h => Or.inl (hb h), rfl, rfl,
            Or.inl ⟨hrest, State.sends_word rfl rfl rfl rfl⟩⟩
        · exact ⟨fun h => Or.inl (hb h), harmless_word rfl (by decide), rfl,
            Or.inl ⟨hrest, rfl⟩⟩
        · exact ⟨fun h => Or.inl (hb h), rfl, rfl,
            Or.inl ⟨hrest, State.sends_word rfl rfl rfl rfl⟩⟩
        · exact ⟨fun h => Or.inl (hb h), harmless_word rfl (by decide)⟩
      · exact ⟨fun h => Or.inl (hb h), rfl, rfl,
          Or.inl ⟨hrest, State.sends_word rfl rfl rfl rfl⟩⟩

theorem carried_rdidle (h : w.Safe) (hc : w.Cautious x) (hp : w.ctl.state = .rdidle) :
    w.Carried x (onRdidle w.ctl x.bus) := by
  obtain ⟨hq, hw, hwip⟩ : w.At w.ctl .rdidle := hp ▸ h.place
  have hb := h.at_rest (x := x) hw (by simp [hp, programming])
  have hrest := h.rests (x := x) hq.1 hw
  have hasked : (w.next x).asked = w.ctl.writeProtect := by simp [Watched.next, hp]
  have hstay (s : State) (hs : s.state = w.ctl.state) (hwr : s.spiWr = false)
      (hwip' : s.writeInProgress = w.ctl.writeInProgress) : w.Carried x s := by
    refine ⟨fun h => Or.inl (hwip'.trans (hb h)), ?_⟩
    rw [hs, hp]
    exact ⟨hrest, hwr, hwip'.trans hwip⟩
  unfold onRdidle
  refine .ite (fun _ => ?_) fun _ => .ite (fun _ => hstay _ rfl rfl rfl) fun _ =>
    .ite (fun _ => ?_) fun _ => hstay _ rfl rfl rfl
  · exact ⟨fun h => Or.inl (hb h), harmless_spd rfl, hwip⟩
  · refine ⟨fun h => Or.inl (hb h), harmless_spd rfl, hwip, hasked, fun hctrl hcmd ha he => ?_⟩
    have hctrl : (x.bus.iWbCtrlStb && !x.bus.iWbDataStb) = true := hctrl
    simp only [Bool.and_eq_true, Bool.not_eq_true'] at hctrl
    exact hasked.trans (hc.erase hp hctrl.1 hctrl.2 hcmd ha he)

theorem carried_wbdecode (h : w.Safe) (hp : w.ctl.state = .wbdecode) :
    w.Carried x (onWbdecode w.ctl x.bus) := by
  obtain ⟨hharm, hwip, hasked, herase⟩ : w.At w.ctl .wbdecode := hp ▸ h.place
  have hb := h.at_harmless (x := x) hharm (by simp [hp, programming])
  have hask := Watched.asked_next (w := w) (x := x) (by simp [hp]) (by simp [hp])
  have hidle : (w.next x).busy = false := by
    cases hn : (w.next x).busy with
    | false => rfl
    | true => exact absurd (hb hn) (by simp [hwip])
  unfold onWbdecode
  refine .ite (fun hs => ?_) fun _ => ?_
  · obtain ⟨hq, hw⟩ := h.stopped (by simp [hp]) (by simp [hp]) hs
    have hrest := h.rests (x := x) hq.1 hw
    unfold decode
    refine .ite (fun _ => ?_) fun hctrl => ?_
    · refine .ite (fun _ => ?_) fun _ => ⟨fun h => Or.inl (hb h), hrest, rfl⟩
      refine .ite (fun hc => ?_) fun _ => .ite (fun _ => ?_) fun hwp => ?_
      · simp only [Bool.and_eq_true, Bool.not_eq_true'] at hc
        refine ⟨fun h => Or.inl (hb h), hc.2, hask.trans (hasked.trans hc.1), Or.inl ⟨hrest, ?_⟩⟩
        exact State.sends_word rfl rfl rfl rfl
      · exact ⟨fun h => Or.inl (hb h), hrest, rfl⟩
      · exact ⟨fun h => Or.inl (hb h), hrest, rfl, fun _ _ =>
          hask.trans (hasked.trans (by simpa using hwp))⟩
    · have hctrl : w.ctl.spifCtrl = true := by simpa using hctrl
      refine .ite (fun hcmd => ?_) fun _ => ?_
      · refine .ite (fun ha => .ite (fun he => ?_) fun _ => ?_) fun _ =>
          .ite (fun _ => ?_) fun _ => .ite (fun _ => ?_) fun _ => ?_
        · refine ⟨fun h => Or.inl (hb h), hask.trans (herase hctrl hcmd ha he), hidle,
            Or.inl ⟨hrest, State.sends_word rfl rfl rfl rfl⟩⟩
        · exact ⟨fun h => Or.inl (hb h), hrest, rfl⟩
        · exact ⟨fun h => Or.inl (hb h), harmless_word rfl (by decide)⟩
        · exact ⟨fun h => Or.inl (hb h), harmless_word rfl (by decide)⟩
        · exact ⟨fun h => Or.inl (hb h), hrest, rfl⟩
      · refine .ite (fun _ => ?_) fun _ => .ite (fun _ => ?_) fun _ =>
          .ite (fun _ => ?_) fun _ => ?_
        · exact ⟨fun h => Or.inl (hb h), hrest, rfl⟩
        · exact ⟨fun h => Or.inl (hb h), harmless_word rfl (by decide), rfl, Or.inl ⟨hrest, rfl⟩⟩
        · exact ⟨fun h => Or.inl (hb h), rfl, rfl,
            Or.inl ⟨hrest, State.sends_word rfl rfl rfl rfl⟩⟩
        · exact ⟨fun h => Or.inl (hb h), harmless_word rfl (by decide)⟩
  · refine ⟨fun h => Or.inl (hb h), ?_⟩
    simp only [State.keepReq, hp]
    refine ⟨State.harmless_of_writes rfl, hwip, hask.trans hasked, fun h₁ h₂ h₃ h₄ => ?_⟩
    exact hask.trans (herase h₁ h₂ h₃ h₄)

theorem carried_reading (h : w.Safe) (hp : w.At w.ctl .rdDummy)
    (hn : programming w.ctl.state = false) {s : State} (hs : s.Harmless)
    (hw : s.writeInProgress = w.ctl.writeInProgress)
    (hst : s.state = .rdDummy ∨ s.state = .qrdAddress ∨ s.state = .qrdDummy ∨
      s.state = .readCmd ∨ s.state = .readData ∨ s.state = .waitTilRdidle ∨
        s.state = .waitTilIdle) : w.Carried x s := by
  refine ⟨fun hb => Or.inl (hw.trans (h.at_harmless hp.1 hn hb)), ?_⟩
  rcases hst with e | e | e | e | e | e | e <;> rw [e]
  all_goals first | exact ⟨hs, hw.trans hp.2⟩ | exact hs

theorem carried_readData (h : w.Safe) (hp : w.ctl.state = .readData) :
    w.Carried x (onReadData w.ctl x.bus) := by
  have hat : w.At w.ctl .rdDummy := (hp ▸ h.place : w.At w.ctl .readData)
  have hn : programming w.ctl.state = false := by simp [hp, programming]
  unfold onReadData
  refine .ite (fun _ => ?_) fun _ => .ite (fun _ => ?_) fun _ => ?_
  · refine carried_reading h hat hn (harmless_zero rfl) rfl ?_
    dsimp only
    split_ifs <;> simp
  · refine carried_reading h hat hn (harmless_zero rfl) rfl ?_
    dsimp only
    split_ifs <;> simp
  · exact carried_reading h hat hn (harmless_zero rfl) rfl (by simp [State.keepReq, hp])

theorem carried_waitTilRdidle (h : w.Safe) (hp : w.ctl.state = .waitTilRdidle) :
    w.Carried x (waitTil .rdidle w.ctl) := by
  have hat : w.At w.ctl .waitTilRdidle := hp ▸ h.place
  have hb := h.at_harmless (x := x) hat.1 (by simp [hp, programming])
  unfold waitTil
  refine .ite (fun hs => ⟨fun h => Or.inl (hb h), ?_⟩) fun _ => ⟨fun h => Or.inl (hb h), ?_⟩
  · obtain ⟨hq, hw⟩ := h.stopped (by simp [hp]) (by simp [hp]) hs
    exact ⟨h.rests hq.1 hw, rfl, hat.2⟩
  · simp only [hp]
    exact ⟨State.harmless_of_writes rfl, hat.2⟩

theorem carried_waitTilIdle (h : w.Safe)
    (hp : w.ctl.state = .waitTilIdle ∨ w.ctl.state = .eraseWen) :
    w.Carried x (waitTil .idle w.ctl) := by
  have hat : w.ctl.Harmless := by
    rcases hp with hp | hp
    · exact (hp ▸ h.place : w.At w.ctl .waitTilIdle)
    · exact (hp ▸ h.place : w.At w.ctl .eraseWen)
  have hn : programming w.ctl.state = false := by rcases hp with hp | hp <;> simp [hp, programming]
  have hb := h.at_harmless (x := x) hat hn
  unfold waitTil
  refine .ite (fun hs => ⟨fun h => Or.inl (hb h), ?_⟩) fun _ => ⟨fun h => Or.inl (hb h), ?_⟩
  · obtain ⟨hq, hw⟩ := h.stopped (by rcases hp with hp | hp <;> simp [hp])
      (by rcases hp with hp | hp <;> simp [hp]) hs
    exact ⟨h.rests hq.1 hw, rfl⟩
  · rcases hp with hp | hp <;> simp only [hp] <;> exact State.harmless_of_writes rfl

theorem carried_readIdCmd (h : w.Safe) (hp : w.ctl.state = .readIdCmd) :
    w.Carried x (onReadIdCmd w.ctl x.bus) := by
  have hat : w.At w.ctl .readIdCmd := hp ▸ h.place
  have hb := h.at_harmless (x := x) hat (by simp [hp, programming])
  refine ⟨fun h => Or.inl (hb h), ?_⟩
  change (w.next x).At _ (if _ then _ else _)
  split_ifs with hc
  · simp only [Bool.and_eq_true, Bool.not_eq_true', State.oQspiCsN,
      h.override (by simp [hp]) (by simp [hp]), Bool.false_eq_true, if_false] at hc
    exact ⟨harmless_zero rfl, fun _ => h.spi.taken_next hc.1.1 hc.1.2⟩
  · exact harmless_zero rfl

theorem carried_readId (h : w.Safe) (hp : w.ctl.state = .readId) :
    w.Carried x (onReadId w.ctl x.bus) := by
  obtain ⟨hharm, hbusy⟩ : w.At w.ctl .readId := hp ▸ h.place
  have hb := h.at_harmless (x := x) hharm (by simp [hp, programming])
  have hstay (s : State) (hs : s.state = w.ctl.state) (hwr : s.spiWr = false)
      (hwip : s.writeInProgress = w.ctl.writeInProgress) : w.Carried x s := by
    refine ⟨fun h => Or.inl (hwip.trans (hb h)), ?_⟩
    rw [hs, hp]
    exact ⟨State.harmless_of_writes hwr, fun h => absurd h (by simp [hwr])⟩
  unfold onReadId
  refine .ite (fun _ => hstay _ rfl rfl rfl) fun _ => .ite (fun hc => ?_) fun _ =>
    hstay _ rfl rfl rfl
  simp only [Bool.and_eq_true, Bool.not_eq_true', State.oQspiCsN,
    h.override (by simp [hp]) (by simp [hp]), Bool.false_eq_true, if_false] at hc
  have hq := h.spi.quiet hc.1 hc.2
  have hw : w.ctl.spiWr = false := by
    cases hw : w.ctl.spiWr with
    | false => rfl
    | true => exact absurd hq.1 (hbusy hw)
  exact ⟨fun h => Or.inl (hb h), h.rests hq.1 hw, rfl⟩

theorem carried_readStatus (h : w.Safe) (ha : w.Truthful x) (hp : w.ctl.state = .readStatus) :
    w.Carried x (onReadStatus w.ctl x.bus) := by
  obtain ⟨hhold, hspd, hs⟩ : w.At w.ctl .readStatus := hp ▸ h.place
  have hharm : w.ctl.Harmless := by
    rcases hs with ⟨-, hs⟩ | ⟨hw, -, -⟩
    · exact State.harmless_of fun _ => hs.harmless (Or.inr rfl)
    · exact State.harmless_of_writes hw
  have hb := h.at_harmless (x := x) hharm (by simp [hp, programming])
  have hlone : (w.next x).ctl.spi.Lone :=
    h.sent hhold (hs.imp (fun h => ⟨h.1, h.2.1⟩) fun h => ⟨h.1, h.2.1⟩)
  have hpoll : (w.next x).Polling := by
    rcases hs with ⟨hq, hs⟩ | ⟨hw, -, hpoll⟩
    · exact hs.polling h.spi hq
    · exact hpoll.next h.spi ha (fun _ => hw) hspd
  -- the port is clear, or the status is still to come
  have hgo (s : State) (hst : s.state =
      if !w.ctl.spi.oBusy && !w.ctl.spiWr then Place.idle else Place.readStatus)
      (hwr : s.spiWr = false) (hh : s.spiHold = false) (hsp : s.spiSpd = w.ctl.spiSpd) :
      (w.next x).At s s.state := by
    rw [hst]
    split_ifs with hc
    · simp only [Bool.and_eq_true, Bool.not_eq_true'] at hc
      rcases hs with ⟨-, hs⟩ | ⟨hw, hl, -⟩
      · exact absurd hs.1 (by simp [hc.2])
      · exact ⟨h.rests (h.spi.lone_quiet hl hc.1).1 hw, hwr⟩
    · exact ⟨hh, hsp.trans hspd, Or.inr ⟨hwr, hlone, hpoll⟩⟩
  unfold onReadStatus
  refine .ite (fun hv => ⟨fun hbusy => Or.inl ?_, hgo _ rfl rfl rfl rfl⟩) fun _ =>
    ⟨fun h => Or.inl (hb h), hgo _ rfl rfl rfl rfl⟩
  rcases hs with ⟨hq, -⟩ | ⟨hw, -, hpoll⟩
  · exact absurd hv (by simp [h.spi.quiet_valid hq])
  · have hold := Watched.busy_next (fun h => absurd (starts_writes h) (by simp [hw])) hbusy
    by_contra hz
    exact absurd (hpoll.valid hv (by simpa using hz)) (by simp [hold])

theorem carried_waitWipClear (h : w.Safe) (hp : w.ctl.state = .waitWipClear) :
    w.Carried x (onWaitWipClear w.ctl x.bus) := by
  obtain ⟨hq, hw, hall⟩ : w.At w.ctl .waitWipClear := hp ▸ h.place
  have hb := h.at_rest (x := x) hw (by simp [hp, programming])
  have hask := Watched.asked_next (w := w) (x := x) (by simp [hp]) (by simp [hp])
  unfold onWaitWipClear
  refine .ite (fun _ => ⟨fun h => Or.inl (hb h), ?_⟩) fun hc => absurd hc (by simp [hq.2])
  exact ⟨rfl, rfl, rfl, fun h₁ h₂ => hask.trans (hall h₁ h₂),
    Or.inl ⟨h.rests hq.1 hw, State.sends_word rfl rfl rfl rfl⟩⟩

theorem carried_checkWipClear (h : w.Safe) (ha : w.Truthful x) (hp : w.ctl.state = .checkWipClear) :
    w.Carried x (onCheckWipClear w.ctl x.bus) := by
  obtain ⟨hhold, hw, hspd, hall, hs⟩ : w.At w.ctl .checkWipClear := hp ▸ h.place
  have hask := Watched.asked_next (w := w) (x := x) (by simp [hp]) (by simp [hp])
  have hall' (s : State) (h₁ : s.spifCmd = w.ctl.spifCmd) (h₂ : s.spifCtrl = w.ctl.spifCtrl) :
      (w.next x).Allowed s := fun hcmd hctrl =>
    hask.trans (hall (h₁.symm.trans hcmd) (h₂.symm.trans hctrl))
  have hlasts : w.ctl.starts = true → w.ctl.offered.lasts = false := by
    intro hst
    rcases hs with ⟨-, hs⟩ | ⟨-, ho⟩
    · exact hs.harmless (Or.inr rfl)
    · simp only [State.starts, Bool.and_eq_true, beq_iff_eq] at hst
      rcases ho with ho | ho | ho | ho <;> simp [hst.1.1] at ho
  unfold onCheckWipClear
  refine .ite (fun hv => ⟨fun hbusy => ?_, rfl, rfl, hall' _ rfl rfl⟩) fun _ =>
    .of_state hp (fun hbusy => ?_) ⟨rfl, rfl, rfl, hall' _ rfl rfl, Or.inr ?_⟩
  · simp only [Bool.and_eq_true, Bool.not_eq_true'] at hv
    rcases hs with ⟨hq, -⟩ | ⟨hpoll, -⟩
    · exact absurd hv.1 (by simp [h.spi.quiet_valid hq])
    · have hold := Watched.busy_next hlasts hbusy
      exact absurd (hpoll.valid hv.1 hv.2) (by simp [hold])
  · have hold := Watched.busy_next hlasts hbusy
    have := h.busy hold
    simp only [hp, programming, Bool.false_eq_true, or_false] at this
    exact Or.inl this
  · rcases hs with ⟨hq, hs⟩ | ⟨hpoll, ho⟩
    · exact ⟨hs.polling h.spi hq, Or.inl (h.begins hq hw).1⟩
    · refine ⟨hpoll.next h.spi ha (fun hi => ?_) hspd, h.spi.open_next ho hhold⟩
      rcases ho with ho | ho | ho | ho <;> simp [hi] at ho

theorem carried_checkWipDone (h : w.Safe) (hp : w.ctl.state = .checkWipDone) :
    w.Carried x (onCheckWipDone w.ctl x.bus) := by
  obtain ⟨hw, hwip, hall⟩ : w.At w.ctl .checkWipDone := hp ▸ h.place
  have hb := h.at_rest (x := x) hw (by simp [hp, programming])
  have hask := Watched.asked_next (w := w) (x := x) (by simp [hp]) (by simp [hp])
  unfold onCheckWipDone
  refine .ite (fun hc => ?_) fun _ => ⟨fun h => Or.inl (hb h), ?_⟩
  · simp only [Bool.and_eq_true, Bool.not_eq_true', State.oQspiCsN,
      h.override (by simp [hp]) (by simp [hp]), Bool.false_eq_true, if_false] at hc
    have hrest := h.rests (x := x) (h.spi.quiet hc.2 hc.1).1 hw
    refine .ite (fun _ => carried_startRead hb hwip) fun _ => .ite (fun hc => ?_) fun _ =>
      .ite (fun _ => ?_) fun _ => .ite (fun _ => ?_) fun _ => ?_
    · simp only [Bool.and_eq_true, Bool.not_eq_true'] at hc
      exact ⟨fun h => Or.inl (hb h), hwip, hask.trans (hall hc.1 hc.2),
        Or.inl ⟨hrest, State.sends_word rfl rfl rfl rfl⟩⟩
    · exact ⟨fun h => Or.inl (hb h), rfl, rfl, Or.inl ⟨hrest, State.sends_word rfl rfl rfl rfl⟩⟩
    · exact ⟨fun h => Or.inl (hb h), harmless_word rfl (by decide)⟩
    · exact ⟨fun h => Or.inl (hb h), State.harmless_of_writes rfl⟩
  · simp only [State.keepReq, hp]
    exact ⟨rfl, hwip, fun h₁ h₂ => hask.trans (hall h₁ h₂)⟩

theorem carried_wen (h : w.Safe) (hp : w.ctl.state = .wen) : w.Carried x (onWen w.ctl x.bus) := by
  obtain ⟨hwip, hasked, hs⟩ : w.At w.ctl .wen := hp ▸ h.place
  have hask := Watched.asked_next (w := w) (x := x) (by simp [hp]) (by simp [hp])
  have hharm : w.ctl.Harmless := by
    rcases hs with ⟨-, hs⟩ | ⟨hw, -⟩
    · exact State.harmless_of fun _ => hs.harmless (Or.inl rfl)
    · exact State.harmless_of_writes hw
  have hb := h.at_harmless (x := x) hharm (by simp [hp, programming])
  have hidle : (w.next x).busy = false := by
    by_contra hn
    exact absurd (hb (by simpa using hn)) (by simp [hwip])
  have henabled : (w.next x).Enabled := by
    rcases hs with ⟨hq, hs⟩ | ⟨hw, he⟩
    · exact hs.enabled h.spi hq
    · exact he.next hw
  have hgo (hst : w.ctl.stopped = true) : (w.next x).ctl.spi.Quiet := by
    obtain ⟨hq, hw⟩ := h.stopped (by simp [hp]) (by simp [hp]) hst
    exact h.rests hq.1 hw
  refine ⟨fun h => Or.inl (hb h), ?_⟩
  change (w.next x).At _ (if _ then if _ then _ else _ else _)
  split_ifs with hst hquad
  · exact ⟨hask.trans hasked, Or.inl ⟨hgo hst, henabled, hidle,
      fun h => absurd h (by simp [onWen])⟩⟩
  · exact ⟨hask.trans hasked, Or.inl ⟨hgo hst, henabled, hidle,
      fun h => absurd h (by simp [onWen])⟩⟩
  · exact ⟨hwip, hask.trans hasked, Or.inr ⟨rfl, henabled⟩⟩

/-- Either page program command. -/
theorem carried_program {byte : BitVec 8} {quad : Bool} (h : w.Safe)
    (hp : w.ctl.state = .pp ∨ w.ctl.state = .qpp) :
    w.Carried x (program byte quad w.ctl x.bus) := by
  obtain ⟨hasked, hs⟩ : w.At w.ctl .pp := by
    rcases hp with hp | hp
    · exact hp ▸ h.place
    · exact (hp ▸ h.place : w.At w.ctl .qpp)
  have hask := Watched.asked_next (w := w) (x := x) (by rcases hp with hp | hp <;> simp [hp])
    (by rcases hp with hp | hp <;> simp [hp])
  have hprog : programming w.ctl.state = true := by
    rcases hp with hp | hp <;> simp [hp, programming]
  rcases hs with ⟨hq, he, hidle, hhold⟩ | ⟨hhold, hst, hbusy⟩
  · have hstay (hat : (w.next x).At (program byte quad w.ctl x.bus) .pp) :
        w.Carried x (program byte quad w.ctl x.bus) := by
      have hs : (program byte quad w.ctl x.bus).state = w.ctl.state := by
        simp [program, hq.2]
      refine .of_state hs (fun _ => Or.inr hprog) ?_
      rcases hp with hp | hp <;> rw [hp] <;> exact hat
    refine hstay ⟨hask.trans hasked, ?_⟩
    cases hw : w.ctl.spiWr with
    | false =>
      refine Or.inl ⟨h.rests hq.1 hw, he.next hw, ?_, fun _ => rfl⟩
      exact Watched.idle_next (fun h => absurd (starts_writes h) (by simp [hw])) hidle
    | true =>
      obtain ⟨hn, hb⟩ := h.begins (x := x) hq hw
      exact Or.inr ⟨rfl, hn, hb⟩
  · have hs : (program byte quad w.ctl x.bus).state = .wrData := by simp [program, hbusy]
    exact .of_state hs (fun _ => Or.inr rfl) ⟨rfl, h.spi.open_next (Or.inl hst) hhold⟩

theorem carried_wrData (h : w.Safe) (hp : w.ctl.state = .wrData) :
    w.Carried x (onWrData w.ctl x.bus) := by
  obtain ⟨hhold, ho⟩ : w.At w.ctl .wrData := hp ▸ h.place
  have hon := h.spi.open_next (i := w.ctl.driver x.bus) ho hhold
  have hs : (onWrData w.ctl x.bus).state = .wrBusCycle ∨
      (onWrData w.ctl x.bus).state = .wrData := by
    simp only [onWrData]
    split_ifs <;> simp
  rcases hs with hs | hs
  · exact .of_state hs (fun _ => Or.inr rfl) ⟨rfl, hon⟩
  · exact .of_state hs (fun _ => Or.inr rfl) ⟨rfl, hon⟩

theorem carried_wrBusCycle (h : w.Safe) (hp : w.ctl.state = .wrBusCycle) :
    w.Carried x (onWrBusCycle w.ctl x.bus) := by
  obtain ⟨hhold, ho⟩ : w.At w.ctl .wrBusCycle := hp ▸ h.place
  have hon := h.spi.open_next (i := w.ctl.driver x.bus) ho hhold
  unfold onWrBusCycle
  refine .ite (fun _ => ⟨fun _ => Or.inl rfl, State.harmless_of_writes rfl⟩) fun _ =>
    .ite (fun _ => .of_state hp (fun _ => Or.inl rfl) ⟨rfl, hon⟩) fun _ =>
    .ite (fun _ => ⟨fun _ => Or.inl rfl, rfl, hon⟩) fun _ =>
    .ite (fun _ => ⟨fun _ => Or.inl rfl, State.harmless_of_writes rfl⟩) fun _ =>
    .of_state hp (fun _ => Or.inl rfl) ⟨rfl, hon⟩

theorem harmless_status {r : BitVec 24} (hs : s.spiIn = word 0x01 r)
    (hw : s.writeInProgress = true) : s.Harmless := by
  intro _
  refine ⟨?_, fun _ => hw⟩
  rw [Command.alters, State.offered, hs, byte_word]
  simp

theorem carried_writeConfig (h : w.Safe) (hp : w.ctl.state = .writeConfig) :
    w.Carried x (onWriteConfig w.ctl x.bus) := by
  have hat : w.At w.ctl .writeConfig := hp ▸ h.place
  have hb := h.at_harmless (x := x) hat (by simp [hp, programming])
  unfold onWriteConfig
  refine .ite (fun _ => ⟨fun _ => Or.inl rfl, harmless_status rfl rfl⟩) fun _ =>
    .of_state hp (fun h => Or.inl (hb h)) (State.harmless_of_writes rfl)

theorem carried_writeStatus (h : w.Safe) (hp : w.ctl.state = .writeStatus) :
    w.Carried x (onWriteStatus w.ctl x.bus) := by
  have hat : w.At w.ctl .writeStatus := hp ▸ h.place
  have hb := h.at_harmless (x := x) hat (by simp [hp, programming])
  unfold onWriteStatus
  refine .ite (fun _ => ⟨fun _ => Or.inl rfl, ?_⟩) fun _ =>
    .of_state hp (fun h => Or.inl (hb h)) (State.harmless_of_writes rfl)
  change (w.next x).At _ (if _ then _ else _)
  split_ifs <;> exact harmless_status rfl rfl

theorem carried_clearStatus (h : w.Safe) (hp : w.ctl.state = .clearStatus) :
    w.Carried x (onClearStatus w.ctl x.bus) := by
  have hat : w.At w.ctl .clearStatus := hp ▸ h.place
  have hb := h.at_harmless (x := x) hat (by simp [hp, programming])
  refine ⟨fun h => Or.inl (hb h), ?_⟩
  change (w.next x).At _ (if _ then _ else _)
  split_ifs <;> exact harmless_word rfl (by decide)

theorem carried_eraseCmd (h : w.Safe) (hp : w.ctl.state = .eraseCmd) :
    w.Carried x (onEraseCmd w.ctl x.bus) := by
  obtain ⟨hasked, hidle, hs⟩ : w.At w.ctl .eraseCmd := hp ▸ h.place
  have hask := Watched.asked_next (w := w) (x := x) (by simp [hp]) (by simp [hp])
  have hidle' : (w.next x).busy = false := by
    refine Watched.idle_next (fun hst => ?_) hidle
    rcases hs with ⟨-, hs⟩ | ⟨hw, -⟩
    · exact hs.harmless (Or.inl rfl)
    · exact absurd (starts_writes hst) (by simp [hw])
  have henabled : (w.next x).Enabled := by
    rcases hs with ⟨hq, hs⟩ | ⟨hw, he⟩
    · exact hs.enabled h.spi hq
    · exact he.next hw
  refine ⟨fun _ => Or.inl rfl, ?_⟩
  change (w.next x).At _ (if _ then _ else _)
  split_ifs with hst
  · obtain ⟨hq, hw⟩ := h.stopped (by simp [hp]) (by simp [hp]) hst
    exact ⟨rfl, rfl, Or.inl ⟨h.rests hq.1 hw, hst, hask.trans hasked, hidle', henabled⟩⟩
  · exact ⟨hask.trans hasked, hidle', Or.inr ⟨Bool.eq_false_iff.mpr hst, henabled⟩⟩

theorem carried_eraseBlock (h : w.Safe) (hp : w.ctl.state = .eraseBlock) :
    w.Carried x (onEraseBlock w.ctl x.bus) := by
  obtain ⟨hwip, hhold, hs⟩ : w.At w.ctl .eraseBlock := hp ▸ h.place
  have hlone : (w.next x).ctl.spi.Lone := h.sent hhold (hs.imp_left fun h => ⟨h.1, h.2.1⟩)
  refine ⟨fun _ => Or.inl hwip, ?_⟩
  change (w.next x).At _ (if _ then _ else _)
  split_ifs with hc
  · simp only [Bool.and_eq_true, Bool.not_eq_true'] at hc
    rcases hs with ⟨-, hw, -⟩ | ⟨hw, hl⟩
    · exact absurd hw (by simp [hc.2])
    · exact ⟨h.rests (h.spi.lone_quiet hl hc.1).1 hw, rfl⟩
  · exact ⟨hwip, rfl, Or.inr ⟨rfl, hlone⟩⟩

theorem carried_idleCheckWip (h : w.Safe) (ha : w.Truthful x) (hc : w.Cautious x)
    (hp : w.ctl.state = .idleCheckWip) : w.Carried x (onIdleCheckWip w.ctl x.bus) := by
  obtain ⟨hhold, hspd, hs⟩ : w.At w.ctl .idleCheckWip := hp ▸ h.place
  let wr : Bool := (!x.bus.iWbCyc || (!x.bus.iWbDataStb && !x.bus.iWbCtrlStb)) &&
    w.ctl.writeInProgress
  -- a request that stopped the polling is still there
  have hkept (hw : w.ctl.spiWr = false) (hst : w.ctl.spi.state ≠ .start ∧ w.ctl.spi.state ≠ .bits) :
      wr = false := by
    cases hwip : w.ctl.writeInProgress with
    | false => simp [wr, hwip]
    | true =>
      obtain ⟨hcyc, hstb⟩ := hc.polling hp hw hwip hst.1 hst.2
      rcases hstb with hstb | hstb <;> simp [wr, hcyc, hstb]
  have hpoll : (w.next x).Polling ∧ (w.next x).ctl.spi.state ≠ .holding := by
    rcases hs with ⟨hq, hs⟩ | ⟨hpoll, hnh, hoff, -⟩
    · have hn := (h.begins (x := x) hq hs.1).1
      exact ⟨hs.polling h.spi hq, by simp [hn]⟩
    · exact ⟨hpoll.next h.spi ha (fun hi => hoff (Or.inr (Or.inr hi))) hspd,
        h.spi.not_holding_next hnh hhold⟩
  have hoff' (hn : (w.next x).ctl.spi.state = .stop ∨ (w.next x).ctl.spi.state = .stopB ∨
      (w.next x).ctl.spi.state = .idle) : wr = false := by
    rcases hs with ⟨hq, hs⟩ | ⟨-, hnh, hoff, hready⟩
    · simp [(h.begins (x := x) hq hs.1).1] at hn
    · rcases LlQspi.closed_next hnh hn with he | he | he | ⟨he, hk, ht⟩
      · exact hkept (hoff (Or.inl he)) (by simp [he])
      · exact hkept (hoff (Or.inr (Or.inl he))) (by simp [he])
      · exact hkept (hoff (Or.inr (Or.inr he))) (by simp [he])
      · refine hkept ?_ (by simp [he])
        by_contra hw
        have hw : w.ctl.spiWr = true := by simpa using hw
        exact ht ⟨hready he hk hw, hw⟩
  have hready' (hn : (w.next x).ctl.spi.state = .ready) (hk : (w.next x).ctl.spi.oSck = true)
      (hw : wr = true) : (w.next x).ctl.spi.oBusy = false := by
    obtain ⟨he, hb⟩ := h.spi.ready_next (i := w.ctl.driver x.bus) hn hk
    have hwr : w.ctl.spiWr = true := by
      by_contra hwr
      exact absurd hw (by simp [hkept (by simpa using hwr) (by simp [he])])
    exact hb.trans (by simp [State.driver, hwr])
  have hbusy (hb : (w.next x).busy = true) :
      (if w.ctl.spi.oValid then w.ctl.spi.oWord.getLsbD 0 else w.ctl.writeInProgress) = true := by
    have hold : w.busy = true := by
      refine Watched.busy_next (fun hst => ?_) hb
      rcases hs with ⟨-, hs⟩ | ⟨-, -, hoff, -⟩
      · exact hs.harmless (Or.inr rfl)
      · have hw := starts_writes hst
        simp only [State.starts, Bool.and_eq_true, beq_iff_eq] at hst
        exact absurd hw (by simp [hoff (Or.inr (Or.inr hst.1.1))])
    have hwip : w.ctl.writeInProgress = true := by
      simpa [hp, programming] using h.busy hold
    split_ifs with hv
    · rcases hs with ⟨hq, -⟩ | ⟨hpoll, -⟩
      · exact absurd hv (by simp [h.spi.quiet_valid hq])
      · by_contra hz
        exact absurd (hpoll.valid hv (by simpa using hz)) (by simp [hold])
    · exact hwip
  unfold onIdleCheckWip
  refine .ite (fun hst => ⟨fun h => Or.inl (hbusy h), ?_⟩) fun _ =>
    .of_state hp (fun h => Or.inl (hbusy h)) ⟨hhold, rfl, Or.inr ⟨hpoll.1, hpoll.2, hoff', hready'⟩⟩
  obtain ⟨hq, hw⟩ := h.stopped (by simp [hp]) (by simp [hp]) hst
  exact ⟨h.rests hq.1 hw, hkept hw (by simp [hq.1])⟩

theorem override_next (hn : (w.next x).ctl.state ≠ .resetQuadmode) :
    (w.next x).ctl.spifOverride = false := by
  have hs : (w.next x).ctl.spifOverride = w.ctl.override := rfl
  have hst : (w.next x).ctl.state = (act w.ctl x.bus).state := rfl
  rw [hs]
  rw [hst] at hn
  cases hp : w.ctl.state with
  | reset => simp [act, hp, onReset] at hn
  | resetQuadmode =>
    by_cases hc : w.ctl.resetCounter = 0
    · simp [State.override, hp, hc]
    · rw [act, hp] at hn
      change (onResetQuadmode w.ctl).state ≠ _ at hn
      rw [onResetQuadmode, if_neg hc] at hn
      exact absurd hp hn
  | _ => simp [State.override, hp]

theorem Watched.Safe.carried (h : w.Safe) (ha : w.Truthful x) (hc : w.Cautious x) :
    w.Carried x (act w.ctl x.bus) := by
  have hreading (hn : programming w.ctl.state = false) (hat : w.At w.ctl .rdDummy) {s : State}
      {p q : Place} (c : Bool) (hs : s.Harmless)
      (hw : s.writeInProgress = w.ctl.writeInProgress) (hst : s.state = if c then p else q)
      (hp : p = .qrdDummy ∨ p = .readCmd ∨ p = .readData)
      (hq : q = .rdDummy ∨ q = .qrdAddress ∨ q = .qrdDummy ∨ q = .readCmd) : w.Carried x s := by
    refine carried_reading h hat hn hs hw ?_
    rw [hst]
    split_ifs
    · tauto
    · tauto
  unfold act
  cases hp : w.ctl.state with
  | reset => exact carried_reset h hp
  | resetQuadmode => exact carried_resetQuadmode h hp
  | idle => exact carried_idle h hp
  | rdidle => exact carried_rdidle h hc hp
  | wbdecode => exact carried_wbdecode h hp
  | rdDummy =>
    have hat : w.At w.ctl .rdDummy := hp ▸ h.place
    exact hreading (by simp [hp, programming]) hat _ (harmless_word rfl (by decide)) rfl rfl
      (by simp) (by simp)
  | qrdAddress =>
    have hat : w.At w.ctl .rdDummy := (hp ▸ h.place : w.At w.ctl .qrdAddress)
    exact hreading (by simp [hp, programming]) hat _ (harmless_spd rfl) rfl rfl (by simp) (by simp)
  | qrdDummy =>
    have hat : w.At w.ctl .rdDummy := (hp ▸ h.place : w.At w.ctl .qrdDummy)
    exact hreading (by simp [hp, programming]) hat _ (harmless_spd rfl) rfl rfl (by simp) (by simp)
  | readCmd =>
    have hat : w.At w.ctl .rdDummy := (hp ▸ h.place : w.At w.ctl .readCmd)
    exact hreading (by simp [hp, programming]) hat _ (harmless_word rfl (by decide)) rfl rfl
      (by simp) (by simp)
  | readData => exact carried_readData h hp
  | waitTilRdidle => exact carried_waitTilRdidle h hp
  | readIdCmd => exact carried_readIdCmd h hp
  | readId => exact carried_readId h hp
  | readStatus => exact carried_readStatus h ha hp
  | readConfig => exact carried_readConfig h hp
  | waitTilIdle => exact carried_waitTilIdle h (Or.inl hp)
  | waitWipClear => exact carried_waitWipClear h hp
  | checkWipClear => exact carried_checkWipClear h ha hp
  | checkWipDone => exact carried_checkWipDone h hp
  | wen => exact carried_wen h hp
  | pp => exact carried_program h (Or.inl hp)
  | qpp => exact carried_program h (Or.inr hp)
  | wrData => exact carried_wrData h hp
  | wrBusCycle => exact carried_wrBusCycle h hp
  | writeStatus => exact carried_writeStatus h hp
  | writeConfig => exact carried_writeConfig h hp
  | eraseWen => exact carried_waitTilIdle h (Or.inr hp)
  | eraseCmd => exact carried_eraseCmd h hp
  | eraseBlock => exact carried_eraseBlock h hp
  | clearStatus => exact carried_clearStatus h hp
  | idleCheckWip => exact carried_idleCheckWip h ha hc hp

theorem Watched.Safe.next (h : w.Safe) (ha : w.Truthful x) (hc : w.Cautious x) :
    (w.next x).Safe :=
  have hn := h.carried ha hc
  ⟨h.spi.next, fun _ => override_next, hn.busy, Watched.at_next hn.place⟩

theorem Watched.Init.safe (h : w.Init) : w.Safe := by
  refine ⟨h.ctl.spi.sound, fun hn => absurd h.ctl.state hn, fun hb => absurd hb (by simp [h.busy]),
    ?_⟩
  rw [h.ctl.state]
  exact ⟨⟨h.ctl.spi.state, h.ctl.spi.oBusy⟩, h.ctl.spiWr⟩

theorem Watched.Safe.guarded (h : w.Safe) : w.Guarded := by
  intro hs ha
  have hw := starts_writes hs
  have hidle : w.ctl.spi.state = .idle := by
    simp only [State.starts, Bool.and_eq_true, beq_iff_eq] at hs
    exact hs.1.1
  have hharm (hh : w.ctl.Harmless) : False := by
    rw [(hh hw).1] at ha
    cases ha
  have hnot (hn : w.ctl.spiWr = false) : False := by
    rw [hn] at hw
    cases hw
  have hplain {len : BitVec 2} {b : BitVec 8} (hs : w.ctl.Sends len b) (hb : b = 0x06 ∨ b = 0x05) :
      False := by
    rw [Command.alters_of_lasts (hs.harmless hb)] at ha
    cases ha
  have hopen (ho : w.ctl.spi.Open) : False := by
    rcases ho with ho | ho | ho | ho <;> simp [hidle] at ho
  have hat := h.place
  cases hp : w.ctl.state with
  | reset | idle =>
    rw [hp] at hat
    exact (hnot hat.2).elim
  | resetQuadmode | rdidle | waitWipClear =>
    rw [hp] at hat
    exact (hnot hat.2.1).elim
  | checkWipDone =>
    rw [hp] at hat
    exact (hnot hat.1).elim
  | wbdecode | rdDummy | qrdAddress | qrdDummy | readCmd | readData | waitTilRdidle | readId
  | readConfig =>
    rw [hp] at hat
    exact (hharm hat.1).elim
  | readIdCmd | waitTilIdle | eraseWen | clearStatus | writeConfig | writeStatus =>
    rw [hp] at hat
    exact (hharm hat).elim
  | readStatus =>
    rw [hp] at hat
    obtain ⟨-, -, ⟨-, hs⟩ | ⟨hn, -⟩⟩ := hat
    · exact (hplain hs (Or.inr rfl)).elim
    · exact (hnot hn).elim
  | checkWipClear =>
    rw [hp] at hat
    obtain ⟨-, -, -, -, ⟨-, hs⟩ | ⟨-, ho⟩⟩ := hat
    · exact (hplain hs (Or.inr rfl)).elim
    · exact (hopen ho).elim
  | wen =>
    rw [hp] at hat
    obtain ⟨-, -, ⟨-, hs⟩ | ⟨hn, -⟩⟩ := hat
    · exact (hplain hs (Or.inl rfl)).elim
    · exact (hnot hn).elim
  | pp | qpp =>
    rw [hp] at hat
    obtain ⟨hasked, ⟨-, he, hb, -⟩ | ⟨-, hst, -⟩⟩ := hat
    · exact ⟨hasked, hb, he⟩
    · simp [hidle] at hst
  | wrData | wrBusCycle =>
    rw [hp] at hat
    exact (hopen hat.2).elim
  | eraseCmd =>
    rw [hp] at hat
    obtain ⟨-, -, ⟨-, hs⟩ | ⟨hn, -⟩⟩ := hat
    · exact (hplain hs (Or.inl rfl)).elim
    · exact (hnot hn).elim
  | eraseBlock =>
    rw [hp] at hat
    obtain ⟨-, -, ⟨-, -, hasked, hb, he⟩ | ⟨hn, -⟩⟩ := hat
    · exact ⟨hasked, hb, he⟩
    · exact (hnot hn).elim
  | idleCheckWip =>
    rw [hp] at hat
    obtain ⟨-, -, ⟨-, hs⟩ | ⟨-, -, hoff, -⟩⟩ := hat
    · exact (hplain hs (Or.inr rfl)).elim
    · exact (hnot (hoff (Or.inr (Or.inr hidle)))).elim

theorem guarded_of_reachable (h : (watch.restrict Watched.Cautious).Reachable w) : w.Guarded :=
  (h.invariant (P := Watched.Safe) (fun _ h => h.safe) fun _ _ h hx => h.next hx.1 hx.2).guarded

instance (w : Watched) (x : Event) : Decidable (w.Truthful x) :=
  inferInstanceAs (Decidable (_ → _ → _ → _ → _))

instance (w : Watched) (x : Event) : Decidable (w.Unasked x) :=
  inferInstanceAs (Decidable (_ → _ → _ → _ → _ → _ → _))

instance (w : Watched) (x : Event) : Decidable (w.Patient x) :=
  inferInstanceAs (Decidable (_ → _ → _ → _ → _ → _ ∧ (_ ∨ _)))

instance (w : Watched) (x : Event) : Decidable (w.Cautious x) :=
  decidable_of_iff (w.Unasked x ∧ w.Patient x) ⟨fun h => ⟨h.1, h.2⟩, fun h => ⟨h.1, h.2⟩⟩

instance (C : Watched → Event → Prop) [∀ w x, Decidable (C w x)] (w : Watched) (x : Event) :
    Decidable ((watch.restrict C).allowed w x) :=
  inferInstanceAs (Decidable (w.Truthful x ∧ C w x))

def newDriver : LlQspi.State where
  state := .idle
  oWord := 0
  oValid := false
  oBusy := false
  oSck := true
  oCsN := true
  oMod := 0
  oDat := 0xd
  rSpd := false
  rDir := false
  spiLen := 0
  rWord := 0
  rInput := 0

def newFlash : State where
  spi := newDriver
  state := .reset
  oWbAck := false
  oWbStall := true
  oWbData := 0
  oInterrupt := false
  spiWr := false
  spiHold := false
  spiSpd := false
  spiDir := false
  spiIn := 0
  spiLen := 0
  writeInProgress := false
  writeProtect := true
  erasedSector := 0
  dirtySector := true
  lastStatus := 0
  resetCounter := 0
  quadModeEnabled := false
  spifCmd := false
  spifOverride := true
  spifAddr := 0
  spifData := 0
  spifCtrl := false
  spifReq := false
  altCmd := false
  altCtrl := false

def newWatched : Watched := ⟨newFlash, none, false, false, true⟩

theorem init_newWatched : newWatched.Init := by
  refine ⟨?_, rfl, rfl, rfl⟩
  constructor <;> first | rfl | (constructor <;> rfl)

/-- A clock without a request, the flash answering with ones. -/
def resting (cyc : Bool) : Event := ⟨⟨cyc, false, false, false, 0, 0, 0xf⟩, false⟩

def reading : Event := ⟨⟨true, true, false, false, 0, 0, 0xf⟩, false⟩

def writing (dat : BitVec 4) : Event := ⟨⟨true, true, false, true, 0, 0, dat⟩, false⟩

/-- A write of the erase register. -/
def erasing (v : BitVec 32) : Event := ⟨⟨true, false, true, true, 0, v, 0xf⟩, false⟩

/-- The start-up sequence, its counter gone from `n` to the next. -/
def starting (n : BitVec 10) : Watched :=
  { newWatched with
    ctl :=
      { newFlash with
        state := .resetQuadmode
        resetCounter := n - 1
        altCmd := { newFlash with resetCounter := n }.toggled 3
        altCtrl := { newFlash with resetCounter := n }.toggled 0 } }

theorem starting_next {n : BitVec 10} (hn : n - 1 ≠ 0) :
    (starting n).next (resting false) = starting (n - 1) := by
  have hact : act (starting n).ctl (resting false).bus =
      { (starting n).ctl with
        oWbAck := false
        oWbStall := true
        resetCounter := n - 1 - 1 } := by
    change onResetQuadmode (starting n).ctl = _
    have hc : (starting n).ctl.resetCounter ≠ 0 := hn
    rw [onResetQuadmode, if_neg hc]
    rfl
  have ho : (starting n).ctl.override = true := by
    change (n - 1 != 0) = true
    simpa using hn
  have hs : (starting n).ctl.starts = false := rfl
  have hc : (starting n).ctl.continues = false := rfl
  simp only [Watched.next, hs, hc, State.next, hact, ho]
  rfl

theorem resting_allowed {C : Watched → Event → Prop} (h : w.ctl.spi.state = .idle)
    (hC : C w (resting false)) : (watch.restrict C).allowed w (resting false) := by
  refine ⟨fun hr => ?_, hC⟩
  rw [h] at hr
  cases hr

/-- A condition that the start-up sequence meets lets it come to its end. -/
theorem reachable_starting {C : Watched → Event → Prop} (hi : C newWatched (resting false))
    (hC : ∀ n, C (starting n) (resting false)) :
    (watch.restrict C).Reachable (starting 1) := by
  have hcount (k : Nat) (hk : k < 1023)
      (h : (watch.restrict C).Reachable (starting (BitVec.ofNat 10 (k + 1)))) :
      (watch.restrict C).Reachable (starting 1) := by
    induction k with
    | zero => exact h
    | succ k ih =>
      have hpred : BitVec.ofNat 10 (k + 1 + 1) - 1 = BitVec.ofNat 10 (k + 1) := by
        rw [BitVec.ofNat_add _ 1]
        simp
      have hn : BitVec.ofNat 10 (k + 1) ≠ 0 := by
        intro hz
        have := congrArg BitVec.toNat hz
        simp only [BitVec.toNat_ofNat, BitVec.ofNat_eq_ofNat, Nat.zero_mod] at this
        omega
      have hnext := h.step (resting_allowed rfl (hC _))
      change (watch.restrict C).Reachable ((starting _).next _) at hnext
      rw [starting_next (hpred ▸ hn), hpred] at hnext
      exact ih (by omega) hnext
  refine hcount 0x3fc (by decide) ?_
  exact (System.reachable_init (M := watch.restrict C) init_newWatched).step
    (resting_allowed rfl hi)

/-- The end of the start-up sequence, up to idle in quad mode. -/
def started : List Event := List.replicate 42 (resting false)

/-- Protection off, and a page program up to where its command goes out. -/
def programmed : List Event :=
  started ++ erasing 0x10000000 :: writing 0xf :: List.replicate 24 (resting true)

theorem guarded_of_reachable_programmed :
    (programmed.foldl Watched.next (starting 1)).ctl.starts = true ∧
      (programmed.foldl Watched.next (starting 1)).ctl.offered.alters = true ∧
      (programmed.foldl Watched.next (starting 1)).Guarded :=
  ⟨by decide +kernel, by decide +kernel,
    guarded_of_reachable ((reachable_starting (by decide +kernel)
      fun _ => ⟨nofun, nofun⟩).foldl (by decide +kernel))⟩

/-- A read, and an erase asked for while protected. -/
def eraseAsked : List Event :=
  started ++ List.replicate 67 reading ++ erasing 0x80000000 :: List.replicate 46 (resting true)

/-- A page program whose status is polled; a request stops the polling and is withdrawn four
clocks later, so that a command byte on its own takes the place of the status; and a write
follows. -/
def programmedTwice : List Event :=
  programmed ++ List.replicate 68 (resting true) ++ List.replicate 53 (resting false) ++
    List.replicate 4 reading ++ List.replicate 3 ⟨⟨false, false, false, false, 0, 0, 0xd⟩, false⟩ ++
    List.replicate 46 (writing 0xd)

/-- Neither half of the condition can go. -/
theorem unguarded_erase_and_program :
    (∃ w, (watch.restrict Watched.Patient).Reachable w ∧ ¬ w.Guarded) ∧
      (∃ w, (watch.restrict Watched.Unasked).Reachable w ∧ ¬ w.Guarded) := by
  refine ⟨⟨eraseAsked.foldl Watched.next (starting 1),
      (reachable_starting (by decide +kernel) fun _ => nofun).foldl (by decide +kernel),
      fun hg => ?_⟩,
    ⟨programmedTwice.foldl Watched.next (starting 1),
      (reachable_starting (by decide +kernel) fun _ => nofun).foldl (by decide +kernel),
      fun hg => ?_⟩⟩
  · have ha : (eraseAsked.foldl Watched.next (starting 1)).asked = true := by decide +kernel
    have hs : (eraseAsked.foldl Watched.next (starting 1)).ctl.starts = true ∧
        (eraseAsked.foldl Watched.next (starting 1)).ctl.offered.alters = true := by decide +kernel
    rw [(hg hs.1 hs.2).1] at ha
    cases ha
  · have hb : (programmedTwice.foldl Watched.next (starting 1)).busy = true := by decide +kernel
    have hs : (programmedTwice.foldl Watched.next (starting 1)).ctl.starts = true ∧
        (programmedTwice.foldl Watched.next (starting 1)).ctl.offered.alters = true := by
      decide +kernel
    rw [(hg hs.1 hs.2).2.1] at hb
    cases hb

end S6Soc.WbQspiFlash
