import S6Soc.FlashProtection

/-! The sector an erase of `wbqspiflashp` is asked for, the one the flash is told to erase,
and the one that is reported as erased. -/
namespace S6Soc.WbQspiFlash
open Clocked

/-- A write of the erase register that asks for an erase, where the controller listens. -/
def State.asksErase (s : State) (i : Input) : Bool :=
  (s.state == .idle || s.state == .rdidle) && i.iWbCtrlStb && !i.iWbDataStb && i.iWbWe &&
    i.iWbAddr.extractLsb' 0 2 == 0 && i.iWbData.getLsbD 31

/-- The controller, and the word last written to ask for an erase. -/
structure Traced where
  ctl : State
  named : BitVec 32

def Traced.next (w : Traced) (i : Input) : Traced :=
  { ctl := w.ctl.next i
    named := if w.ctl.asksErase i then i.iWbData else w.named }

def erases : System Traced Input where
  init w := PowerUp w.ctl
  allowed _ _ := True
  next := Traced.next

/-- The sector a request names: it counts blocks of 64 kB of the 16 MB there are. -/
def sector (v : BitVec 32) : BitVec 8 := v.extractLsb' 14 8

def Command.erase (c : Command) : Bool := !c.spd && c.byte == 0xd8

def Command.address (c : Command) : BitVec 24 := c.spiIn.extractLsb' 0 24

/-- What goes out is the address of the sector asked for, whole, and that sector is
reported. -/
structure Traced.Hits (w : Traced) : Prop where
  whole : w.ctl.offered.len = 3
  address : w.ctl.offered.address = sector w.named ++ 0#16
  reported : w.ctl.erasedSector = sector w.named

/-- The word of the erase command: six bits of the sector. -/
def eraseWord (v : BitVec 32) : BitVec 32 := word 0xd8 (0#2 ++ v.extractLsb' 14 6 ++ 0#14 ++ 0#2)

/-- Nothing handed over would be taken for an erase. -/
def State.Plain (s : State) : Prop := s.spiWr = true → s.offered.erase = false

/-- What holds of the controller and the last request. -/
structure Traced.Sound (w : Traced) : Prop where
  spi : LlQspi.Sound w.ctl.spi
  override : w.ctl.state ≠ .reset → w.ctl.state ≠ .resetQuadmode → w.ctl.spifOverride = false
  start : w.ctl.state = .reset ∨ w.ctl.state = .resetQuadmode → w.ctl.spiWr = false
  program : w.ctl.state = .pp ∨ w.ctl.state = .qpp →
    (w.ctl.spi.Quiet ∧ (w.ctl.spiWr = true → w.ctl.spiHold = true)) ∨
      (w.ctl.spiHold = true ∧ w.ctl.spi.state = .start ∧ w.ctl.spi.oBusy = true)
  write : w.ctl.state = .wrData ∨ w.ctl.state = .wrBusCycle →
    w.ctl.spiHold = true ∧ w.ctl.spi.Open
  decode : w.ctl.state = .wbdecode → w.ctl.spifCtrl = true → w.ctl.spifCmd = true →
    w.ctl.spifAddr.extractLsb' 0 2 = 0 → w.ctl.spifData.getLsbD 31 = true →
      w.ctl.spifData = w.named
  command : w.ctl.state = .eraseCmd → w.ctl.spifData = w.named
  block : w.ctl.state = .eraseBlock → w.ctl.spiIn = eraseWord w.named ∧ w.ctl.spiLen = 3 ∧
    w.ctl.erasedSector = sector w.named
  polling : w.ctl.state = .idleCheckWip → w.ctl.spiIn = word 0x05 0
  plain : w.ctl.Plain ∨ w.ctl.state = .eraseBlock ∨ w.ctl.state = .wrData ∨
    w.ctl.state = .wrBusCycle

variable {w : Traced} {s : State} {i : Input}

theorem erase_word {spd : Bool} {len : BitVec 2} {b : BitVec 8} {r : BitVec 24} (hb : b ≠ 0xd8) :
    (Command.mk spd len (word b r)).erase = false := by
  rw [Command.erase, byte_word, beq_eq_false_iff_ne.2 hb, Bool.and_false]

theorem erase_spd (len : BitVec 2) (v : BitVec 32) : (Command.mk true len v).erase = false := rfl

theorem erase_zero (spd : Bool) (len : BitVec 2) : (Command.mk spd len 0).erase = false := by
  rw [Command.erase, byte_zero]
  exact Bool.and_false _

/-- Where the places that matter here are entered from. -/
def Follows (p : Place) : Place → Prop
  | .reset => False
  | .resetQuadmode => p = .reset ∨ p = .resetQuadmode
  | .wbdecode => p = .rdidle ∨ p = .wbdecode
  | .pp => p = .wen ∨ p = .pp
  | .qpp => p = .wen ∨ p = .qpp
  | .wrData | .wrBusCycle => p = .pp ∨ p = .qpp ∨ p = .wrData ∨ p = .wrBusCycle
  | .eraseCmd => p = .idle ∨ p = .wbdecode ∨ p = .eraseCmd
  | .eraseBlock => p = .eraseCmd ∨ p = .eraseBlock
  | .idleCheckWip => p = .idle ∨ p = .idleCheckWip
  | _ => True

theorem follows_act (s : State) (i : Input) : Follows s.state (act s i).state := by
  cases hp : s.state <;> simp only [act, hp, onPp, onQpp]
  all_goals
    simp only [onReset, onResetQuadmode, State.listen, State.startRead, idleErase, onIdle, onRdidle,
      decode, State.keepReq, onWbdecode, onRdDummy, onQrdAddress, onQrdDummy, onReadCmd, onReadData,
      waitTil, onReadIdCmd, onReadId, onReadStatus, onReadConfig, onWaitWipClear, onCheckWipClear,
      onCheckWipDone, onWen, program, onWrData, onWrBusCycle, onWriteConfig, onWriteStatus,
      onEraseCmd, onEraseBlock, onClearStatus, onIdleCheckWip, State.send, hp,
      apply_ite State.state]
    repeat' split
    all_goals first | exact trivial | simp [Follows]

theorem follows_of_act {p : Place} (h : (act s i).state = p) : Follows s.state p :=
  h ▸ follows_act s i

/-- What `wbdecode` decodes was noted down in `rdidle`. -/
theorem act_wbdecode (h : (act s i).state = .wbdecode) :
    (s.state = .rdidle ∧ (act s i).spifData = i.iWbData ∧ (act s i).spifAddr = i.iWbAddr ∧
        (act s i).spifCmd = i.iWbWe ∧ (act s i).spifCtrl = (i.iWbCtrlStb && !i.iWbDataStb)) ∨
      (s.state = .wbdecode ∧ (act s i).spifData = s.spifData ∧ (act s i).spifAddr = s.spifAddr ∧
        (act s i).spifCmd = s.spifCmd ∧ (act s i).spifCtrl = s.spifCtrl) := by
  rcases follows_of_act h with hp | hp <;> simp only [act, hp] at h ⊢
  · grind [onRdidle, State.listen, State.send]
  · grind [onWbdecode, decode, State.keepReq, State.send]

/-- An erase starts with a request, at once or decoded later. -/
theorem act_eraseCmd (h : (act s i).state = .eraseCmd) :
    (s.state = .idle ∧ s.asksErase i = true ∧ (act s i).spifData = i.iWbData) ∨
      (s.state = .wbdecode ∧ s.spifCtrl = true ∧ s.spifCmd = true ∧
        s.spifAddr.extractLsb' 0 2 = 0 ∧ s.spifData.getLsbD 31 = true ∧
        (act s i).spifData = s.spifData) ∨
      (s.state = .eraseCmd ∧ (act s i).spifData = s.spifData) := by
  rcases follows_of_act h with hp | hp | hp <;> simp only [act, hp, State.asksErase] at h ⊢
  · grind [onIdle, idleErase, State.startRead, State.listen, State.send]
  · grind [onWbdecode, decode, State.keepReq, State.send]
  · grind [onEraseCmd, State.keepReq]

theorem act_eraseBlock (h : (act s i).state = .eraseBlock) :
    (s.state = .eraseCmd ∧ (act s i).spiIn = eraseWord s.spifData ∧ (act s i).spiLen = 3 ∧
        (act s i).erasedSector = sector s.spifData) ∨
      (s.state = .eraseBlock ∧ (act s i).spiIn = s.spiIn ∧ (act s i).spiLen = s.spiLen ∧
        (act s i).erasedSector = s.erasedSector) := by
  rcases follows_of_act h with hp | hp <;> simp only [act, hp]
  · exact .inl ⟨trivial, rfl, rfl, rfl⟩
  · exact .inr ⟨trivial, rfl, rfl, rfl⟩

theorem act_start (h : (act s i).state = .reset ∨ (act s i).state = .resetQuadmode) :
    (s.state = .reset ∧ (act s i).spiWr = false) ∨
      (s.state = .resetQuadmode ∧ (act s i).spiWr = s.spiWr) := by
  rcases h with h | h
  · exact (follows_of_act h).elim
  · rcases follows_of_act h with hp | hp <;> simp only [act, hp] at h ⊢
    · exact .inl ⟨trivial, rfl⟩
    · grind [onResetQuadmode, State.send]

theorem act_program (h : (act s i).state = .pp ∨ (act s i).state = .qpp) :
    (s.state = .wen ∧ s.stopped = true ∧ (act s i).spiWr = false) ∨
      ((s.state = .pp ∨ s.state = .qpp) ∧ s.spi.oBusy = false ∧ (act s i).spiHold = true) := by
  rcases h with h | h <;> rcases follows_of_act h with hp | hp <;>
    simp only [act, hp, onPp, onQpp] at h ⊢ <;> grind [onWen, program, State.keepReq, State.send]

theorem act_write (h : (act s i).state = .wrData ∨ (act s i).state = .wrBusCycle) :
    (s.state = .pp ∨ s.state = .qpp) ∧ s.spi.oBusy = true ∧ (act s i).spiHold = true ∨
      (s.state = .wrData ∨ s.state = .wrBusCycle) ∧ (act s i).spiHold = true := by
  rcases h with h | h <;> rcases follows_of_act h with hp | hp | hp | hp <;>
    simp only [act, hp, onPp, onQpp] at h ⊢ <;>
    grind [onWrData, onWrBusCycle, program, State.keepReq, State.send]

theorem act_idleCheckWip (h : (act s i).state = .idleCheckWip) :
    (act s i).spiIn = word 0x05 0 ∨ s.state = .idleCheckWip ∧ (act s i).spiIn = s.spiIn := by
  rcases follows_of_act h with hp | hp <;> simp only [act, hp] at h ⊢
  · grind [onIdle, idleErase, State.startRead, State.listen, State.send]
  · grind [onIdleCheckWip, State.keepReq]

theorem plain_word {b : BitVec 8} {r : BitVec 24} (hs : s.spiIn = word b r) (hb : b ≠ 0xd8) :
    s.Plain := fun _ => by
  unfold State.offered
  rw [hs, erase_word hb]

theorem plain_zero (hs : s.spiIn = 0) : s.Plain := fun _ => by
  unfold State.offered
  rw [hs, erase_zero]

theorem plain_spd (hs : s.spiSpd = true) : s.Plain := fun _ => by
  unfold State.offered
  rw [hs, erase_spd]

theorem plain_of_writes (hs : s.spiWr = false) : s.Plain := fun h => by
  rw [hs] at h
  cases h

theorem plain_startRead (s : State) (addr : BitVec 22) : (s.startRead addr).Plain := by
  unfold State.startRead
  split_ifs <;> exact plain_word rfl (by decide)

/-- Whether it is plain does not depend on what the bus is told. -/
theorem Plain.stalled (h : s.Plain) (b : Bool) : ({ s with oWbStall := b } : State).Plain := h

theorem plain_idle : (onIdle s i).Plain := by
  unfold onIdle idleErase
  dsimp only
  split_ifs <;> first
    | exact plain_of_writes rfl
    | exact Plain.stalled (plain_startRead _ _) true
    | exact plain_word rfl (by decide)

theorem plain_rdidle : (onRdidle s i).Plain := by
  unfold onRdidle
  split_ifs
  · exact plain_spd rfl
  · exact plain_of_writes rfl
  · exact plain_zero rfl
  · exact plain_of_writes rfl

theorem plain_wbdecode : (onWbdecode s i).Plain := by
  unfold onWbdecode decode
  split_ifs <;> first | exact plain_of_writes rfl | exact plain_word rfl (by decide)

theorem plain_checkWipDone : (onCheckWipDone s i).Plain := by
  unfold onCheckWipDone
  dsimp only
  split_ifs <;> first
    | exact plain_of_writes rfl
    | exact plain_startRead _ _
    | exact plain_word rfl (by decide)

theorem plain_readData : (onReadData s i).Plain := by
  unfold onReadData
  split_ifs <;> exact plain_zero rfl

/-- Only from `eraseCmd`, and as data of a page, can such a word be handed over. -/
theorem act_plain (hw : s.state ≠ .wrData) (hr : s.state = .resetQuadmode → s.spiWr = false)
    (hc : s.state = .idleCheckWip → s.spiIn = word 0x05 0) :
    (act s i).Plain ∨ (act s i).state = .eraseBlock := by
  cases hp : s.state <;> simp only [act, hp]
  case reset => exact .inl (plain_of_writes rfl)
  case resetQuadmode =>
    left
    unfold onResetQuadmode
    split_ifs
    · exact plain_word rfl (by decide)
    · exact plain_of_writes (hr hp)
  case idle => exact .inl plain_idle
  case rdidle => exact .inl plain_rdidle
  case wbdecode => exact .inl plain_wbdecode
  case rdDummy => exact .inl (plain_word rfl (by decide))
  case qrdAddress => exact .inl (plain_spd rfl)
  case qrdDummy => exact .inl (plain_spd rfl)
  case readCmd => exact .inl (plain_word rfl (by decide))
  case readData => exact .inl plain_readData
  case waitTilRdidle | waitTilIdle | eraseWen =>
    left
    unfold waitTil
    split_ifs <;> exact plain_of_writes rfl
  case readIdCmd => exact .inl (plain_zero rfl)
  case readId =>
    left
    unfold onReadId
    split_ifs <;> exact plain_of_writes rfl
  case readStatus =>
    left
    unfold onReadStatus
    split_ifs <;> exact plain_of_writes rfl
  case readConfig =>
    left
    unfold onReadConfig
    split_ifs <;> exact plain_of_writes rfl
  case waitWipClear =>
    left
    unfold onWaitWipClear
    split_ifs
    · exact plain_word rfl (by decide)
    · exact plain_of_writes rfl
  case checkWipClear =>
    left
    unfold onCheckWipClear
    split_ifs
    · exact plain_of_writes rfl
    · exact plain_zero rfl
  case checkWipDone => exact .inl plain_checkWipDone
  case wen => exact .inl (plain_of_writes rfl)
  case pp => exact .inl (plain_word rfl (by decide))
  case qpp => exact .inl (plain_word rfl (by decide))
  case wrData => exact absurd hp hw
  case wrBusCycle =>
    left
    unfold onWrBusCycle
    split_ifs <;> exact plain_of_writes rfl
  case writeStatus =>
    left
    unfold onWriteStatus
    split_ifs <;> exact plain_word rfl (by decide)
  case writeConfig =>
    left
    unfold onWriteConfig
    split_ifs <;> exact plain_word rfl (by decide)
  case eraseCmd =>
    cases hs : s.stopped with
    | true => exact .inr (if_pos hs)
    | false => exact .inl (plain_of_writes hs)
  case eraseBlock => exact .inl (plain_of_writes rfl)
  case clearStatus => exact .inl (plain_word rfl (by decide))
  case idleCheckWip =>
    have hin := hc hp
    left
    unfold onIdleCheckWip
    split_ifs <;> exact plain_word hin (by decide)

theorem Traced.Sound.init (h : PowerUp w.ctl) : w.Sound where
  spi := h.spi.sound
  override := fun hn => absurd h.state hn
  start := fun _ => h.spiWr
  program := by simp [h.state]
  write := by simp [h.state]
  decode := by simp [h.state]
  command := by simp [h.state]
  block := by simp [h.state]
  polling := by simp [h.state]
  plain := .inl (plain_of_writes h.spiWr)

theorem Traced.Sound.stopped (h : w.Sound) (h₁ : w.ctl.state ≠ .reset)
    (h₂ : w.ctl.state ≠ .resetQuadmode) (hs : w.ctl.stopped = true) :
    w.ctl.spi.Quiet ∧ w.ctl.spiWr = false := by
  simp only [State.stopped, State.oQspiCsN, h.override h₁ h₂, Bool.false_eq_true, if_false,
    Bool.and_eq_true, Bool.not_eq_true'] at hs
  exact ⟨h.spi.quiet hs.1.1 hs.1.2, hs.2⟩

theorem Traced.Sound.program_next (h : w.Sound)
    (hp : (act w.ctl i).state = .pp ∨ (act w.ctl i).state = .qpp) :
    ((w.next i).ctl.spi.Quiet ∧ ((act w.ctl i).spiWr = true → (act w.ctl i).spiHold = true)) ∨
      ((act w.ctl i).spiHold = true ∧ (w.next i).ctl.spi.state = .start ∧
        (w.next i).ctl.spi.oBusy = true) := by
  obtain ⟨hwen, hstop, hwr⟩ | ⟨hprog, hbusy, hhold⟩ := act_program hp
  · obtain ⟨hq, hw⟩ := h.stopped (by simp [hwen]) (by simp [hwen]) hstop
    exact .inl ⟨h.spi.rests (i := w.ctl.driver i) hq.1 hw, by simp [hwr]⟩
  · obtain ⟨hq, hheld⟩ | ⟨-, -, hb⟩ := h.program hprog
    · cases hw : w.ctl.spiWr with
      | false => exact .inl ⟨h.spi.rests (i := w.ctl.driver i) hq.1 hw, fun _ => hhold⟩
      | true =>
        obtain ⟨hst, hb, -⟩ := h.spi.begins (i := w.ctl.driver i) hq.1 hw
        exact .inr ⟨hhold, hst, hb⟩
    · rw [hbusy] at hb
      cases hb

theorem Traced.Sound.write_next (h : w.Sound)
    (hp : (act w.ctl i).state = .wrData ∨ (act w.ctl i).state = .wrBusCycle) :
    (act w.ctl i).spiHold = true ∧ (w.next i).ctl.spi.Open := by
  obtain ⟨hprog, hbusy, hhold⟩ | ⟨hwrite, hhold⟩ := act_write hp
  · obtain ⟨hq, -⟩ | ⟨hh, hst, -⟩ := h.program hprog
    · rw [hq.2] at hbusy
      cases hbusy
    · exact ⟨hhold, h.spi.open_next (i := w.ctl.driver i) (.inl hst) hh⟩
  · obtain ⟨hh, ho⟩ := h.write hwrite
    exact ⟨hhold, h.spi.open_next (i := w.ctl.driver i) ho hh⟩

theorem Traced.Sound.next (h : w.Sound) (i : Input) : (w.next i).Sound where
  spi := h.spi.next
  override := fun _ hn => override_next (w := ⟨w.ctl, none, false, false, false⟩)
      (x := ⟨i, false⟩) hn
  start := fun hp => by
    obtain ⟨-, hw⟩ | ⟨hr, hw⟩ := act_start hp
    · exact hw
    · exact hw.trans (h.start (.inr hr))
  program := h.program_next
  write := h.write_next
  decode := fun hp hctrl hcmd haddr hdata => by
    change (act w.ctl i).spifData = if w.ctl.asksErase i then i.iWbData else w.named
    obtain ⟨hr, hd, ha, hc, hk⟩ | ⟨hr, hd, ha, hc, hk⟩ := act_wbdecode hp
    · have hasks : w.ctl.asksErase i = true := by
        change (act w.ctl i).spifCtrl = true at hctrl
        change (act w.ctl i).spifCmd = true at hcmd
        change (act w.ctl i).spifAddr.extractLsb' 0 2 = 0 at haddr
        change (act w.ctl i).spifData.getLsbD 31 = true at hdata
        rw [hk, Bool.and_eq_true] at hctrl
        rw [hc] at hcmd
        rw [ha] at haddr
        rw [hd] at hdata
        simp [State.asksErase, hr, hctrl.1, hctrl.2, hcmd, haddr, hdata]
      rw [if_pos hasks, hd]
    · rw [if_neg (by simp [State.asksErase, hr]), hd]
      exact h.decode hr (hk ▸ hctrl) (hc ▸ hcmd) (ha ▸ haddr) (hd ▸ hdata)
  command := fun hp => by
    change (act w.ctl i).spifData = if w.ctl.asksErase i then i.iWbData else w.named
    obtain ⟨-, hasks, hd⟩ | ⟨hr, hctrl, hcmd, haddr, hdata, hd⟩ | ⟨hr, hd⟩ := act_eraseCmd hp
    · rw [if_pos hasks, hd]
    · rw [if_neg (by simp [State.asksErase, hr]), hd]
      exact h.decode hr hctrl hcmd haddr hdata
    · rw [if_neg (by simp [State.asksErase, hr]), hd]
      exact h.command hr
  block := fun hp => by
    change (act w.ctl i).spiIn = eraseWord (if w.ctl.asksErase i then i.iWbData else w.named) ∧
      (act w.ctl i).spiLen = 3 ∧
      (act w.ctl i).erasedSector = sector (if w.ctl.asksErase i then i.iWbData else w.named)
    obtain ⟨hr, hin, hlen, hsec⟩ | ⟨hr, hin, hlen, hsec⟩ := act_eraseBlock hp
    · rw [if_neg (by simp [State.asksErase, hr]), hin, hsec, h.command hr]
      exact ⟨rfl, hlen, rfl⟩
    · rw [if_neg (by simp [State.asksErase, hr]), hin, hlen, hsec]
      exact h.block hr
  polling := fun hp => by
    obtain hin | ⟨hr, hin⟩ := act_idleCheckWip hp
    · exact hin
    · exact hin.trans (h.polling hr)
  plain := by
    by_cases hw : w.ctl.state = .wrData
    · right
      right
      change (act w.ctl i).state = _ ∨ (act w.ctl i).state = _
      rw [act, hw]
      change (onWrData w.ctl i).state = _ ∨ (onWrData w.ctl i).state = _
      unfold onWrData
      cases w.ctl.spi.oBusy <;> simp
    · exact (act_plain hw (fun hr => h.start (.inr hr)) h.polling).imp_right .inl

theorem sound_of_reachable (h : erases.Reachable w) : w.Sound :=
  h.invariant (P := Traced.Sound) (fun _ h => .init h) fun _ i h _ => h.next i

theorem lt_of_bits : ∀ x : BitVec 8, x < 64 ↔ x.getLsbD 6 = false ∧ x.getLsbD 7 = false := by
  decide

theorem getLsbD_sector (v : BitVec 32) {k : Nat} (hk : k < 8) :
    (sector v).getLsbD k = v.getLsbD (14 + k) := by
  simp [sector, hk]

/-- The bits of the address that is sent. -/
theorem getLsbD_address (v : BitVec 32) {spd : Bool} {len : BitVec 2} {k : Nat} (hk : k < 24) :
    (Command.mk spd len (eraseWord v)).address.getLsbD k =
      (decide (16 ≤ k ∧ k < 22) && v.getLsbD (k - 2)) := by
  simp only [Command.address, eraseWord, word, BitVec.getLsbD_extractLsb', BitVec.getLsbD_append]
  interval_cases k <;> simp

theorem address_iff (v : BitVec 32) {spd : Bool} {len : BitVec 2} :
    (Command.mk spd len (eraseWord v)).address = sector v ++ 0#16 ↔ sector v < 64 := by
  rw [lt_of_bits]
  constructor
  · intro h
    constructor
    · have hbit : _ = (sector v ++ 0#16).getLsbD 22 := congrArg (·.getLsbD 22) h
      rw [getLsbD_address v (by decide), BitVec.getLsbD_append] at hbit
      simpa using hbit.symm
    · have hbit : _ = (sector v ++ 0#16).getLsbD 23 := congrArg (·.getLsbD 23) h
      rw [getLsbD_address v (by decide), BitVec.getLsbD_append] at hbit
      simpa using hbit.symm
  · rintro ⟨h₆, h₇⟩
    refine BitVec.eq_of_getLsbD_eq fun k hk => ?_
    rw [getLsbD_address v hk, BitVec.getLsbD_append]
    rw [getLsbD_sector v (by decide)] at h₆ h₇
    interval_cases k <;> simp_all [sector]

/-- The erase that goes out is the one asked for exactly when the sector's number fits six
bits. -/
theorem erase_iff (h : erases.Reachable w) (hs : w.ctl.starts = true)
    (he : w.ctl.offered.erase = true) : w.Hits ↔ sector w.named < 64 := by
  have hsound := sound_of_reachable h
  have hidle : w.ctl.spi.state = .idle := by
    simp only [State.starts, Bool.and_eq_true, beq_iff_eq] at hs
    exact hs.1.1
  have hblock : w.ctl.state = .eraseBlock := by
    obtain hp | hp | hp := hsound.plain
    · rw [hp (starts_writes hs)] at he
      cases he
    · exact hp
    · obtain ⟨-, ho | ho | ho | ho⟩ := hsound.write hp <;> rw [hidle] at ho <;> cases ho
  obtain ⟨hin, hlen, hsec⟩ := hsound.block hblock
  have hoff : w.ctl.offered = ⟨w.ctl.spiSpd, w.ctl.spiLen, eraseWord w.named⟩ := by
    rw [State.offered, hin]
  refine ⟨fun hh => (address_iff w.named).1 (hoff ▸ hh.address), fun hlt => ⟨?_, ?_, hsec⟩⟩
  · rw [hoff]
    exact hlen
  · rw [hoff]
    exact (address_iff w.named).2 hlt

theorem erasedSector_startRead (s : State) (addr : BitVec 22) :
    (s.startRead addr).erasedSector = s.erasedSector := by
  unfold State.startRead
  split_ifs <;> rfl

/-- The sector reported stays that one until the next erase. -/
theorem erasedSector_next (hp : w.ctl.state ≠ .eraseCmd) :
    (w.next i).ctl.erasedSector = w.ctl.erasedSector := by
  change (act w.ctl i).erasedSector = _
  cases hs : w.ctl.state <;> simp only [act, hs, onPp, onQpp]
  case eraseCmd => exact absurd hs hp
  all_goals
    simp only [onReset, onResetQuadmode, State.listen, erasedSector_startRead, idleErase, onIdle,
      onRdidle, decode, State.keepReq, onWbdecode, onRdDummy, onQrdAddress, onQrdDummy, onReadCmd,
      onReadData,
      waitTil, onReadIdCmd, onReadId, onReadStatus, onReadConfig, onWaitWipClear, onCheckWipClear,
      onCheckWipDone, onWen, program, onWrData, onWrBusCycle, onWriteConfig, onWriteStatus,
      onEraseBlock, onClearStatus, onIdleCheckWip, State.send, apply_ite State.erasedSector,
      ite_self]

/-- A clock of a run of the watched controller in which no erase is asked for. -/
def Watched.Unnamed (w : Watched) (x : Event) : Prop := w.ctl.asksErase x.bus = false

theorem erases_of_watch {w : Watched} (h : (watch.restrict Watched.Unnamed).Reachable w) :
    erases.Reachable ⟨w.ctl, 0⟩ := by
  refine h.invariant (P := fun w => erases.Reachable ⟨w.ctl, 0⟩) (fun w hw => ?_)
    fun u x hu hx => ?_
  · exact System.reachable_init hw.ctl
  · have hn := hu.step (i := x.bus) trivial
    have hkeep : Traced.next ⟨u.ctl, 0⟩ x.bus = ⟨(u.next x).ctl, 0⟩ := by
      unfold Traced.next
      rw [if_neg (by rw [hx.2]; exact Bool.false_ne_true)]
      rfl
    exact hkeep ▸ hn

theorem reachable_started : erases.Reachable ⟨(starting 1).ctl, 0⟩ :=
  erases_of_watch (reachable_starting rfl fun _ => rfl)

/-- Protection off, and an erase up to where the command goes out. -/
def eraseRun (v : BitVec 32) : Traced :=
  (started.map Event.bus ++ (erasing 0x10000000).bus :: (erasing v).bus ::
    List.replicate 23 (resting true).bus).foldl Traced.next ⟨(starting 1).ctl, 0⟩

theorem reachable_eraseRun (v : BitVec 32) : erases.Reachable (eraseRun v) :=
  reachable_started.foldl (System.admits_of_free (fun _ _ => trivial) _)

theorem erase_iff_first :
    (eraseRun 0x80004000).Hits ↔ sector (eraseRun 0x80004000).named < 64 :=
  erase_iff (reachable_eraseRun _) (by decide +kernel) (by decide +kernel)

/-- Asked for sector 64, the flash is told to erase sector 0. -/
theorem erase_misses : ¬ ∀ w, erases.Reachable w → w.ctl.starts = true →
    w.ctl.offered.erase = true → w.Hits := by
  intro h
  have hh := h _ (reachable_eraseRun 0x80100000) (by decide +kernel) (by decide +kernel)
  have ha : (eraseRun 0x80100000).ctl.offered.address = 0 := by decide +kernel
  exact absurd (ha.symm.trans hh.address) (by decide +kernel)

end S6Soc.WbQspiFlash
