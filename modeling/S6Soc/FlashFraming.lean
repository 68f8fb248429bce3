import S6Soc.Clocked
import S6Soc.FlashXpress
import S6Soc.QspiFlash

/-! The controller and its chip, under any bus traffic after start-up: how commands
are framed by the chip select, and what the reads return. -/
namespace S6Soc.FlashXpress
open Clocked QspiFlash

structure Request where
  cyc : Bool
  stb : Bool
  addr : BitVec 22

/-- Controller and chip. `left` counts the clocks of chip select the transfer under way
has left, `high` tells whether chip select has been high since the last command or
continuation, `pending` holds the reads of this bus cycle still to be acknowledged and
`held` the cycle line of the clock before. `lasts` tells whether the bus cycle of the last read
taken stood until then, and `nextUp` whether a request for the word after it was up then. -/
structure Board where
  core : State
  chip : Chip
  lastQspiDat : BitVec 4
  left : Nat
  high : Bool
  pending : List (BitVec 22)
  held : Bool
  lasts : Bool
  nextUp : Bool

def Board.input (x : Board) (r : Request) : Input where
  iReset := false
  iWbCyc := r.cyc
  iWbStb := r.stb
  iWbAddr := r.addr
  iQspiDat := x.lastQspiDat

def Board.taken (x : Board) (r : Request) : Bool := request x.core (x.input r)

def Board.next (mem : BitVec 24 → BitVec 8) (x : Board) (r : Request) : Board :=
  let pins := x.chip.clock mem x.core.oQspiCsN x.core.oQspiSck x.core.oQspiDat
  { core := step x.core (x.input r)
    chip := pins.1
    lastQspiDat := sampled x.core.oQspiMod x.core.oQspiDat pins.2
    left := if x.taken r then (if x.core.rPipeReq then 8 else 22) else x.left - 1
    high := !x.taken r && (x.high || x.core.oQspiCsN)
    pending :=
      if r.cyc then
        (if x.core.oWbAck then x.pending.tail else x.pending) ++
          (if x.taken r then [r.addr] else [])
      else []
    held := r.cyc
    lasts := r.cyc && (x.taken r || x.lasts)
    nextUp := x.lasts && r.stb && (r.addr == x.core.lastAddr + 1) }

/-- The controller in the first clock after start-up: the pipes hold a first command,
to an address nobody asked for. -/
structure StartedUp (s : State) : Prop where
  maintenance : s.maintenance = false
  mState : s.mState = 3
  busyPipe : s.busyPipe = 0x3fffff
  clkPipe : s.clkPipe = clkStart
  modPipe : s.modPipe = 0
  dataPipe : ∃ a, s.dataPipe = command a
  preAck : s.preAck = false
  rPipeReq : s.rPipeReq = false
  oWbStall : s.oWbStall = true
  ackPipe : s.ackPipe = false
  oWbAck : s.oWbAck = false

/-- The chip has just shifted in the quad I/O read command. -/
structure Commanded (c : Chip) : Prop where
  mState : c.mState = .quadReadCmd
  mQuadMode : c.mQuadMode = true
  mLastSck : c.mLastSck = true
  mCount : c.mCount = 8

structure Board.Init (x : Board) : Prop where
  core : StartedUp x.core
  chip : Commanded x.chip
  left : x.left = 22
  high : x.high = false
  pending : x.pending = []
  lasts : x.lasts = false
  nextUp : x.nextUp = false

def system (mem : BitVec 24 → BitVec 8) : System Board Request where
  init := Board.Init
  allowed _ r := r.stb = true → r.cyc = true
  next := Board.next mem

/-- The framing law for one clock: a command with an address phase follows a high chip
select, a continuation does not and is for the next word, and an acknowledgement seen
by the bus carries the word of the oldest read. -/
structure Framed (mem : BitVec 24 → BitVec 8) (x : Board) (r : Request) : Prop where
  command : x.taken r = true → x.core.rPipeReq = false →
    x.high = true ∨ x.core.oQspiCsN = true
  continuation : x.taken r = true → x.core.rPipeReq = true →
    x.high = false ∧ x.core.oQspiCsN = false ∧ r.addr = x.core.lastAddr + 1
  acknowledged : x.core.oWbAck = true → r.cyc = true →
    ∃ a ∈ x.pending.head?, x.core.oWbData = word mem a

/-- A request for the next word that was up in the clock before, in the same bus cycle, is
taken in the last clock of a transfer, and is then still for the next word; any other request
is taken later, and not if such a request was up. The bus cycle of a read lasts until
the clock of its acknowledgement. -/
structure Timely (x : Board) (r : Request) : Prop where
  last : x.taken r = true → x.left = 1 →
    x.nextUp = true ∧ r.addr = x.core.lastAddr + 1
  ended : x.taken r = true → x.left = 0 → x.nextUp = false
  cycle : x.core.oWbAck = true → r.cyc = true → x.held = true

def busyAt (n : Nat) : BitVec 22 := BitVec.allOnes 22 <<< (22 - n)

def clkAt (n : Nat) : BitVec 44 := Nat.iterate (fun c => c <<< 2 ||| 3) (22 - n) clkStart

def modAt (n : Nat) : BitVec 10 := Nat.iterate (fun m => m <<< 1 ||| 1) (22 - n) 0

theorem busyAt_shift : ∀ n < 23, busyAt n <<< 1 = busyAt (n - 1) := by decide

theorem clkAt_shift : ∀ n < 23, clkAt n <<< 2 ||| 3#44 = clkAt (n - 1) := by decide

theorem modAt_shift : ∀ n < 23, modAt n <<< 1 ||| 1#10 = modAt (n - 1) := by decide

theorem busyAt_19 : ∀ n < 23, (busyAt n).getLsbD 19 = decide (3 ≤ n) := by decide

theorem busyAt_20 : ∀ n < 23, (busyAt n).getLsbD 20 = decide (2 ≤ n) := by decide

theorem clkAt_top : ∀ n < 23,
    (clkAt n).extractLsb' 42 2 = if n = 0 then 3 else if n = 22 then 0 else 1 := by decide

theorem modAt_top : ∀ n < 23, (modAt n).getLsbD 9 = decide (n ≤ 12) := by decide

variable {mem : BitVec 24 → BitVec 8} {x : Board} {r : Request} {a : BitVec 22}

/-- The byte being sent when `n` clocks are left. -/
def byteAt (a : BitVec 22) (n : Nat) : BitVec 24 := byteAddr a + BitVec.ofNat 24 ((9 - n) / 2)

/-- The chip when `n` clocks of the transfer of word `a` are left. -/
def ChipAt (mem : BitVec 24 → BitVec 8) (a : BitVec 22) (n : Nat) (c : Chip) : Prop :=
  if n = 0 then Readable c
  else if n < 10 then
    Streaming mem (byteAt a n) (n % 2 = 0) c ∧ c.mLastSck = true
  else Addressing (command a) (if n = 21 then 1 else 21 - n) c ∧ c.mLastSck = decide (n ≠ 21)

/-- The word an acknowledgement carries: with a continuation under way, the one before. -/
def answered (a : BitVec 22) (n : Nat) : BitVec 22 := if n = 0 then a else a - 1

/-- The pipes and the chip agree: `x.left` clocks of the transfer of word `a` are left. -/
structure Transfer (mem : BitVec 24 → BitVec 8) (x : Board) (a : BitVec 22) : Prop where
  bound : x.left ≤ 22
  maintenance : x.core.maintenance = false
  mState : x.core.mState = 3
  busy : x.core.busyPipe = busyAt x.left
  clk : x.core.clkPipe = clkAt x.left
  mod : x.core.modPipe = modAt x.left
  data : 10 ≤ x.left → x.core.dataPipe = command a <<< (4 * (21 - x.left))
  chip : ChipAt mem a x.left x.chip
  nibble : 1 ≤ x.left → x.left ≤ 8 →
    x.lastQspiDat = (word mem a).extractLsb' (4 * (x.left - 1)) 4
  word : 1 ≤ x.left → x.left ≤ 8 → ∀ b < 4 * (8 - x.left),
    x.core.oWbData.getLsbD b = (QspiFlash.word mem a).getLsbD (b + 4 * x.left)
  high : 1 ≤ x.left → x.high = false

/-- The reads the controller still owes this bus cycle: one whose acknowledgement is out
(`p`), and one whose transfer is under way (`q`). -/
def Board.line {α : Type} (x : Board) (p q : α) : List α :=
  (if x.core.oWbAck && x.held then [p] else []) ++
    if x.core.preAck && decide (1 ≤ x.left) then [q] else []

/-- The handshake with the bus, next to the transfer of word `a`. -/
structure Handshake (mem : BitVec 24 → BitVec 8) (x : Board) (a : BitVec 22) : Prop where
  stall : 2 ≤ x.left → x.core.oWbStall = true
  lastAddr : x.core.preAck = true → x.core.lastAddr = a
  held : x.core.preAck = true → x.held = true
  ackPipe : x.core.ackPipe = true → x.left = 1
  asked : x.left = 1 → x.core.rPipeReq = true → x.core.preAck = true
  free : x.left = 0 → x.core.oWbStall = false
  lasts : 1 ≤ x.left → x.lasts = x.core.preAck
  nextUp : x.left ≤ 1 → x.core.rPipeReq = x.nextUp
  ackSoon : x.left = 1 → x.core.preAck = true → x.core.ackPipe = true
  ackWhen : x.core.oWbAck = true → x.left = 0 ∨ x.left = 8 ∧ x.core.rPipeReq = true
  ackData : x.core.oWbAck = true → x.core.oWbData = word mem (answered a x.left)
  queue : x.pending = x.line (answered a x.left) a

def Invariant (mem : BitVec 24 → BitVec 8) (x : Board) : Prop :=
  ∃ a, Transfer mem x a ∧ Handshake mem x a

theorem sck_eq (h : Transfer mem x a) :
    x.core.oQspiSck = if x.left = 0 then 3 else if x.left = 22 then 0 else 1 := by
  have hb := h.bound
  simp [State.oQspiSck, h.maintenance, h.clk, clkAt_top x.left (by omega)]

theorem csN_eq (h : Transfer mem x a) : x.core.oQspiCsN = decide (x.left = 0) := by
  have hb := h.bound
  simp only [State.oQspiCsN, h.maintenance, h.clk, clkAt_top x.left (by omega)]
  split_ifs <;> simp_all

theorem dat_eq (h : Transfer mem x a) (hn : 10 ≤ x.left) :
    x.core.oQspiDat = nibble (command a) (21 - x.left) := by
  simp [State.oQspiDat, h.maintenance, h.data hn, nibble]

theorem mod_eq (h : Transfer mem x a) (hn : x.left ≤ 12) : x.core.oQspiMod = 3 := by
  have hb := h.bound
  simp [State.oQspiMod, h.maintenance, h.mod, modAt_top x.left (by omega), hn]

def Board.pins (mem : BitVec 24 → BitVec 8) (x : Board) : Chip × BitVec 4 :=
  x.chip.clock mem x.core.oQspiCsN x.core.oQspiSck x.core.oQspiDat

theorem pins_high (h : Transfer mem x a) (h₀ : x.left = 0) :
    x.pins mem = (x.chip.deselect, x.core.oQspiDat) := by
  simp [Board.pins, csN_eq h, sck_eq h, h₀]

theorem pins_low (h : Transfer mem x a) (h₀ : 1 ≤ x.left) :
    x.pins mem =
      x.chip.clock mem false (if x.left = 22 then 0 else 1) x.core.oQspiDat := by
  rw [Board.pins, csN_eq h, sck_eq h, if_neg (by omega), decide_eq_false (by omega)]

theorem command_addr (a : BitVec 22) : (command a).extractLsb' 8 24 = byteAddr a :=
  BitVec.extractLsb'_append_eq_left

theorem command_mode (a : BitVec 22) : continuous ((command a).setWidth 8) = true := by
  have h : (command a).setWidth 8 = 0xa0#8 := BitVec.setWidth_append_eq_right
  rw [h]
  decide

/-- Address, mode and dummy nibbles. -/
theorem chip_addressing (h : Transfer mem x a) (hn : 10 ≤ x.left) :
    ChipAt mem a (x.left - 1) (x.pins mem).1 := by
  have hb := h.bound
  have hc := h.chip
  rw [ChipAt, if_neg (by omega), if_neg (by omega)] at hc
  obtain ⟨ha, hl⟩ := hc
  rw [pins_low h (by omega), dat_eq h hn]
  by_cases h22 : x.left = 22
  · simp only [h22] at ha hl ⊢
    rw [if_neg (by omega)] at ha
    rw [if_pos trivial, clock_start hl ha.quad]
    exact ⟨addressing_setLastSck (addressing_fall ha (by omega)) false, rfl⟩
  rw [if_neg h22]
  by_cases h21 : x.left = 21
  · simp only [h21] at ha hl ⊢
    rw [clock_settle hl]
    exact ⟨addressing_setLastSck ha true, rfl⟩
  rw [if_neg h21] at ha
  rw [clock_pulse (by simpa [h21] using hl) ha.quad]
  by_cases h10 : x.left = 10
  · simp only [h10] at ha ⊢
    have hs : Streaming mem _ false _ := streaming_fall_addressing ha (command_mode a)
    rw [command_addr] at hs
    exact ⟨by simpa [byteAt] using streaming_setLastSck hs true, rfl⟩
  · have hf : Addressing _ _ (Chip.fall mem _ _) := addressing_fall ha (by omega)
    have hs := addressing_setLastSck hf true
    rw [ChipAt, if_neg (by omega), if_neg (by omega), if_neg (by omega)]
    rw [show 21 - x.left + 1 = 21 - (x.left - 1) by omega] at hs
    exact ⟨hs, by simp; omega⟩

theorem byteAt_even (a : BitVec 22) {n : Nat} (h : n % 2 = 0) (h₁ : 1 ≤ n) (h₉ : n ≤ 9) :
    byteAt a (n - 1) = byteAt a n + 1 := by
  interval_cases n <;> simp [byteAt, BitVec.add_assoc] at h ⊢

theorem byteAt_odd (a : BitVec 22) {n : Nat} (h : n % 2 = 1) : byteAt a (n - 1) = byteAt a n := by
  rw [byteAt, byteAt, show (9 - (n - 1)) / 2 = (9 - n) / 2 by omega]

/-- Data nibbles: the chip goes on to the next one and puts this one out. -/
theorem chip_streaming (h : Transfer mem x a) (h₁ : 1 ≤ x.left) (h₉ : x.left ≤ 9) :
    (Streaming mem (byteAt a (x.left - 1)) ((x.left - 1) % 2 = 0) (x.pins mem).1 ∧
      (x.pins mem).1.mLastSck = true) ∧
    (x.pins mem).2 = (mem (byteAt a x.left)).extractLsb' (if x.left % 2 = 0 then 0 else 4) 4 := by
  have hc := h.chip
  rw [ChipAt, if_neg (by omega), if_pos (by omega)] at hc
  obtain ⟨hs, hl⟩ := hc
  rw [pins_low h h₁, if_neg (by omega), clock_pulse hl hs.quad]
  by_cases h2 : x.left % 2 = 0
  · rw [decide_eq_true h2] at hs
    obtain ⟨hs, ho⟩ := streaming_fall_second hs x.core.oQspiDat
    rw [byteAt_even a h2 h₁ h₉, decide_eq_false (by omega), if_pos h2]
    exact ⟨⟨streaming_setLastSck hs true, rfl⟩, ho⟩
  · rw [decide_eq_false h2] at hs
    obtain ⟨hs, ho⟩ := streaming_fall_first hs x.core.oQspiDat
    rw [byteAt_odd a (by omega), decide_eq_true (by omega), if_neg h2]
    exact ⟨⟨streaming_setLastSck hs true, rfl⟩, ho⟩

theorem chip_next (h : Transfer mem x a) : ChipAt mem a (x.left - 1) (x.pins mem).1 := by
  by_cases h₀ : x.left = 0
  · have hc := h.chip
    rw [pins_high h h₀]
    simp only [h₀, ChipAt, if_true] at hc ⊢
    exact readable_deselect hc
  by_cases h₉ : x.left ≤ 9
  · obtain ⟨⟨hs, hl⟩, -⟩ := chip_streaming h (by omega) h₉
    by_cases h1 : x.left = 1
    · simpa [ChipAt, h1] using hs.readable
    · rw [ChipAt, if_neg (by omega), if_pos (by omega)]
      exact ⟨hs, hl⟩
  · exact chip_addressing h (by omega)

/-- Chip select is high: a new command may follow. -/
theorem chip_fresh (h : Transfer mem x a) (h₀ : x.left = 0) (a' : BitVec 22) :
    ChipAt mem a' 22 (x.pins mem).1 := by
  have hc := h.chip
  rw [ChipAt, if_pos h₀] at hc
  rw [pins_high h h₀]
  exact ⟨addressing_deselect hc, rfl⟩

theorem byteAt_more (a : BitVec 22) : byteAt a 0 = byteAt (a + 1) 8 := by
  simp [byteAt]

/-- The last pulse of a word is the first of the next. -/
theorem chip_more (h : Transfer mem x a) (h₁ : x.left = 1) :
    ChipAt mem (a + 1) 8 (x.pins mem).1 := by
  obtain ⟨⟨hs, hl⟩, -⟩ := chip_streaming h (by omega) (by omega)
  simp only [h₁, Nat.sub_self, byteAt_more] at hs
  exact ⟨by simpa using hs, hl⟩

theorem nibble_next (h : Transfer mem x a) (h₂ : 2 ≤ x.left) (h₉ : x.left ≤ 9) :
    (x.pins mem).2 = (word mem a).extractLsb' (4 * (x.left - 1 - 1)) 4 := by
  rw [(chip_streaming h (by omega) h₉).2, word_nibble mem a (by omega) (by omega)]
  have e : (8 - (x.left - 1)) / 2 = (9 - x.left) / 2 := by omega
  by_cases h2 : x.left % 2 = 0
  · rw [if_pos h2, if_neg (by omega), byteAt, e]
  · rw [if_neg h2, if_pos (by omega), byteAt, e]

theorem nibble_more (h : Transfer mem x a) (h₁ : x.left = 1) :
    (x.pins mem).2 = (word mem (a + 1)).extractLsb' (4 * (8 - 1)) 4 := by
  rw [(chip_streaming h (by omega) (by omega)).2, word_nibble mem (a + 1) (by omega) (by omega)]
  simp [h₁, byteAt]

/-- Another nibble of the word is in. -/
theorem bits_next (h : Transfer mem x a) (h₁ : 1 ≤ x.left) (h₈ : x.left ≤ 8) :
    ∀ b < 4 * (8 - (x.left - 1)), (x.core.oWbData <<< 4 ||| x.lastQspiDat.setWidth 32).getLsbD b =
      (word mem a).getLsbD (b + 4 * (x.left - 1)) := by
  intro b hb
  rw [BitVec.getLsbD_or, BitVec.getLsbD_shiftLeft, BitVec.getLsbD_setWidth]
  by_cases h4 : b < 4
  · have hd : (x.lastQspiDat).getLsbD b = (word mem a).getLsbD (4 * (x.left - 1) + b) := by
      rw [h.nibble h₁ h₈, BitVec.getLsbD_extractLsb', decide_eq_true h4, Bool.true_and]
    rw [hd, Nat.add_comm]
    simp [h4, show b < 32 by omega]
  · have hw := h.word h₁ h₈ (b - 4) (by omega)
    have hd : x.lastQspiDat.getLsbD b = false := BitVec.getLsbD_of_ge _ _ (by omega)
    rw [show b - 4 + 4 * x.left = b + 4 * (x.left - 1) by omega] at hw
    simp [h4, hd, hw]
    intro h32
    omega

/-- The word is complete after the last clock of its transfer. -/
theorem data_complete (h : Transfer mem x a) (h₁ : x.left = 1) :
    x.core.oWbData <<< 4 ||| x.lastQspiDat.setWidth 32 = word mem a := by
  apply BitVec.eq_of_getLsbD_eq
  intro b hb
  simpa [h₁] using bits_next h (by omega) (by omega) b (by omega)

theorem step_oWbData_eq : (x.next mem r).core.oWbData =
    x.core.oWbData <<< 4 ||| x.lastQspiDat.setWidth 32 := by
  simp [Board.next, access, Board.input]

theorem transfer_idle (h : Transfer mem x a) (ht : x.taken r = false) :
    Transfer mem (x.next mem r) a := by
  have hb := h.bound
  have hq : request x.core (x.input r) = false := ht
  have hl : (x.next mem r).left = x.left - 1 := by simp [Board.next, ht]
  obtain ⟨hm, hs⟩ := step_running (i := x.input r) h.maintenance h.mState rfl
  refine ⟨by omega, hm, hs, ?_, ?_, ?_, ?_, ?_, ?_, ?_, ?_⟩ <;> rw [hl]
  · simp [Board.next, access, hq, h.maintenance, h.busy, busyAt_shift x.left (by omega)]
  · simp [Board.next, access, hq, h.maintenance, h.clk, clkAt_shift x.left (by omega)]
  · simp [Board.next, access, hq, h.maintenance, h.mod, modAt_shift x.left (by omega)]
  · intro hn
    have hd := h.data (by omega)
    by_cases h22 : x.left = 22
    · simp [Board.next, access, hq, h.maintenance, sck_eq h, h22, hd]
    · simp only [Board.next, step_dataPipe, access, hq, h.maintenance, sck_eq h, hd, h22]
      simp [show x.left ≠ 0 by omega, ← BitVec.shiftLeft_add]
      congr 1
      omega
  · exact chip_next h
  · intro h₁ h₈
    rw [← nibble_next h (by omega) (by omega)]
    simp [Board.next, mod_eq h (by omega), sampled, Board.pins]
  · intro h₁ h₈ b hb'
    rw [step_oWbData_eq]
    by_cases h9 : x.left = 9
    · omega
    · exact bits_next h (by omega) (by omega) b hb'
  · intro h₁
    simp [Board.next, ht, h.high (by omega), csN_eq h]
    omega

theorem transfer_fresh (h : Transfer mem x a) (ht : x.taken r = true)
    (hp : x.core.rPipeReq = false) (h₀ : x.left = 0) : Transfer mem (x.next mem r) r.addr := by
  have hq : request x.core (x.input r) = true := ht
  have hl : (x.next mem r).left = 22 := by simp [Board.next, ht, hp]
  obtain ⟨hm, hs⟩ := step_running (i := x.input r) h.maintenance h.mState rfl
  refine ⟨by omega, hm, hs, ?_, ?_, ?_, ?_, ?_, ?_, ?_, ?_⟩ <;> rw [hl]
  · simp [Board.next, access, hq, hp, h.maintenance, busyAt]
  · simp [Board.next, access, hq, hp, h.maintenance, clkAt]
  · simp [Board.next, access, hq, hp, h.maintenance, modAt]
  · intro _
    simp only [Board.next, step_dataPipe, access, hq]
    simp [Board.input]
  · exact chip_fresh h h₀ r.addr
  · intro _ h8
    omega
  · intro _ h8
    omega
  · intro _
    simp [Board.next, ht]

theorem transfer_more (h : Transfer mem x a) (ht : x.taken r = true)
    (hp : x.core.rPipeReq = true) (h₁ : x.left = 1) : Transfer mem (x.next mem r) (a + 1) := by
  have hq : request x.core (x.input r) = true := ht
  have hl : (x.next mem r).left = 8 := by simp [Board.next, ht, hp]
  obtain ⟨hm, hs⟩ := step_running (i := x.input r) h.maintenance h.mState rfl
  refine ⟨by omega, hm, hs, ?_, ?_, ?_, ?_, ?_, ?_, ?_, ?_⟩ <;> rw [hl]
  · simp [Board.next, access, hq, hp, h.maintenance, busyAt]
  · simp [Board.next, access, hq, hp, h.maintenance, clkAt]
    decide
  · simp [Board.next, access, hq, hp, h.maintenance, h.mod, h₁]
    decide
  · intro h10
    omega
  · exact chip_more h h₁
  · intro _ _
    rw [← nibble_more h h₁]
    simp [Board.next, mod_eq h (by omega), sampled, Board.pins]
  · intro _ _ b hb
    omega
  · intro _
    simp [Board.next, ht]

theorem next_preAck (h : Transfer mem x a) : (x.next mem r).core.preAck =
    (r.cyc && (x.taken r || (x.core.preAck && !(x.core.oWbAck && !x.core.rPipeReq)))) := by
  have hc : (x.input r).iWbCyc = r.cyc := rfl
  simp only [Board.next, step_preAck, access, h.maintenance, Board.taken, hc]
  cases r.cyc <;> cases request x.core (x.input r) <;> cases x.core.oWbAck <;>
    cases x.core.rPipeReq <;> simp

theorem next_stall (h : Transfer mem x a) : (x.next mem r).core.oWbStall =
    (x.taken r || decide (3 ≤ x.left) || (decide (2 ≤ x.left) && !x.core.rPipeReq)) := by
  have hb := h.bound
  simp only [Board.next, step_oWbStall, access, h.busy, busyAt_19 x.left (by omega),
    busyAt_20 x.left (by omega), Board.taken]

theorem next_ackPipe (h : Transfer mem x a) :
    (x.next mem r).core.ackPipe = (x.core.preAck && decide (x.left = 2)) := by
  have hb := h.bound
  simp only [Board.next, step_ackPipe, access, h.busy, busyAt_19 x.left (by omega),
    busyAt_20 x.left (by omega)]
  grind

theorem next_oWbAck : (x.next mem r).core.oWbAck = (x.core.preAck && x.core.ackPipe) := by
  simp [Board.next, access]

theorem next_rPipeReq : (x.next mem r).core.rPipeReq =
    (x.core.preAck && r.stb && (x.core.lastAddr + 1 == r.addr)) := by
  simp [Board.next, access, pipeCondition, Board.input]

theorem next_lastAddr : (x.next mem r).core.lastAddr =
    if x.taken r then r.addr else x.core.lastAddr := by
  simp only [Board.next, step_lastAddr, access, Board.taken]
  rfl

theorem next_held : (x.next mem r).held = r.cyc := rfl

theorem next_lasts : (x.next mem r).lasts = (r.cyc && (x.taken r || x.lasts)) := rfl

theorem next_nextUp : (x.next mem r).nextUp =
    (x.lasts && r.stb && (r.addr == x.core.lastAddr + 1)) := rfl

theorem next_pending : (x.next mem r).pending =
    if r.cyc then (if x.core.oWbAck then x.pending.tail else x.pending) ++
      (if x.taken r then [r.addr] else [])
    else [] := rfl

@[simp] theorem answered_more (a : BitVec 22) : answered (a + 1) 8 = a := by
  simp only [answered]
  exact BitVec.add_sub_cancel a 1

/-- An acknowledgement follows the last clock of a transfer whose cycle still stands. -/
theorem ack_next (hh : Handshake mem x a) (ha : (x.next mem r).core.oWbAck = true) :
    x.left = 1 ∧ x.core.preAck = true := by
  rw [next_oWbAck, Bool.and_eq_true] at ha
  exact ⟨hh.ackPipe ha.2, ha.1⟩

theorem no_ack_last (hh : Handshake mem x a) (h₁ : x.left = 1) : x.core.oWbAck = false := by
  by_contra hb
  have := hh.ackWhen (by simpa using hb)
  omega

theorem no_ack_next (hh : Handshake mem x a) (h₁ : x.left ≠ 1) :
    (x.next mem r).core.oWbAck = false := by
  by_contra hb
  exact h₁ (ack_next hh (by simpa using hb)).1

theorem taken_left (hh : Handshake mem x a) (ht : x.taken r = true) : x.left ≤ 1 := by
  by_contra hn
  have hs := hh.stall (by omega)
  simp [Board.taken, request, hs] at ht

theorem taken_stb (ht : x.taken r = true) : r.stb = true := by
  simp_all [Board.taken, request, Board.input]

/-- What is owed moves on as the bus sees it: the answered read leaves in front, the one
taken joins at the back. -/
theorem line_next {α : Type} (h : Transfer mem x a) (hh : Handshake mem x a)
    (hw : Timely x r) (p q n : α) :
    (x.next mem r).line q (if x.taken r then n else q) =
      if r.cyc then
        (if x.core.oWbAck then (x.line p q).tail else x.line p q) ++
          if x.taken r then [n] else []
      else [] := by
  have hl : (x.next mem r).left =
      if x.taken r then (if x.core.rPipeReq then 8 else 22) else x.left - 1 := rfl
  rw [Board.line, Board.line, next_held, next_preAck h, hl]
  cases hc : r.cyc
  · simp
  by_cases h1 : x.left = 1
  · -- the last clock of a transfer: its acknowledgement comes next
    have hp (ht : x.taken r = true) : x.core.rPipeReq = true :=
      (hh.nextUp (by omega)).trans (hw.last ht h1).1
    rw [next_oWbAck, h1, no_ack_last hh h1]
    cases hpre : x.core.preAck
    · cases ht : x.taken r
      · simp
      · have := hh.asked h1 (hp ht)
        simp [hpre] at this
    · cases ht : x.taken r
      · simp [hh.ackSoon h1 hpre]
      · simp [hh.ackSoon h1 hpre, hp ht]
  · rw [no_ack_next hh h1]
    cases ht : x.taken r
    · cases hb : x.core.oWbAck
      · simp
        grind
      · have hheld := hw.cycle hb hc
        obtain h0 | ⟨h8, hq8⟩ := hh.ackWhen hb
        · simp [h0, hheld]
        · simp [h8, hq8, hheld]
    · have h0 : x.left = 0 := by
        have := taken_left hh ht
        omega
      rw [hh.nextUp (by omega), hw.ended ht h0, h0]
      cases x.core.oWbAck <;> cases x.held <;> simp

theorem handshake_idle (h : Transfer mem x a) (hh : Handshake mem x a)
    (hr : r.stb = true → r.cyc = true) (ht : x.taken r = false) (hw : Timely x r) :
    Handshake mem (x.next mem r) a := by
  have hl : (x.next mem r).left = x.left - 1 := by simp [Board.next, ht]
  have hp := next_preAck h (r := r)
  have hs := next_stall h (r := r)
  have hk := next_ackPipe h (r := r)
  have ha : (x.next mem r).core.oWbAck = _ := next_oWbAck
  have hq : (x.next mem r).core.rPipeReq = _ := next_rPipeReq
  rw [ht] at hp hs
  refine ⟨?_, ?_, ?_, ?_, ?_, ?_, ?_, ?_, ?_, ?_, ?_, ?_⟩
  · intro h2
    rw [hs, hl] at *
    simp
    omega
  · intro h1
    rw [next_lastAddr, ht]
    grind [hh.lastAddr]
  · intro h1
    rw [hp] at h1
    simp [Board.next]
    grind
  · rw [hk, hl]
    grind
  · intro h1 h2
    grind [hh.ackWhen]
  · intro h0
    rw [hs]
    simp
    omega
  · intro h1
    rw [next_lasts, ht, hp, hh.lasts (by omega)]
    grind [hh.ackWhen]
  · intro h1
    rw [hq, next_nextUp]
    by_cases h0 : x.left = 0
    · -- a request would have been taken
      have hstb : r.stb = false := by simpa [Board.taken, request, Board.input, hh.free h0] using ht
      simp [hstb]
    · rw [hh.lasts (by omega), Bool.beq_comm]
  · grind [hh.ackWhen]
  · intro h1
    have := (ack_next hh h1).1
    omega
  · intro h1
    obtain ⟨h2, h3⟩ := ack_next hh h1
    rw [step_oWbData_eq, data_complete h h2, hl, h2]
    rfl
  · have hn := line_next h hh hw (answered a x.left) a r.addr
    rw [next_pending, hh.queue, ← hn, ht, hl]
    by_cases h1 : x.left = 1
    · simp [h1, answered]
    · simp [Board.line, no_ack_next hh h1]

theorem handshake_fresh (h : Transfer mem x a) (hh : Handshake mem x a)
    (hr : r.stb = true → r.cyc = true) (ht : x.taken r = true) (hw : Timely x r)
    (h₀ : x.left = 0) : Handshake mem (x.next mem r) r.addr := by
  have hp := (hh.nextUp (by omega)).trans (hw.ended ht h₀)
  have hl : (x.next mem r).left = 22 := by simp [Board.next, ht, hp]
  have hc : r.cyc = true := hr (taken_stb ht)
  have ha : (x.next mem r).core.oWbAck = false := no_ack_next hh (by omega)
  have hk := next_ackPipe h (r := r)
  refine ⟨fun _ => ?_, fun _ => ?_, fun _ => hc, ?_, ?_, ?_, fun _ => ?_, ?_, ?_, ?_, ?_, ?_⟩
  · simp [next_stall h, ht]
  · simp [next_lastAddr, ht]
  · simp [hk, h₀]
  · omega
  · omega
  · simp [next_lasts, next_preAck h, ht]
  · omega
  · omega
  · simp [ha]
  · simp [ha]
  · have hn := line_next h hh hw (answered a x.left) a r.addr
    rw [next_pending, hh.queue, ← hn, ht]
    simp [Board.line, ha]

theorem handshake_more (h : Transfer mem x a) (hh : Handshake mem x a)
    (hr : r.stb = true → r.cyc = true) (ht : x.taken r = true) (hw : Timely x r)
    (h₁ : x.left = 1) : Handshake mem (x.next mem r) (a + 1) := by
  obtain ⟨hup, hn⟩ := hw.last ht h₁
  have hp := (hh.nextUp (by omega)).trans hup
  have hl : (x.next mem r).left = 8 := by simp [Board.next, ht, hp]
  have hs : r.stb = true := taken_stb ht
  have hpre := hh.asked h₁ hp
  have haddr : r.addr = a + 1 := by rw [hn, hh.lastAddr hpre]
  have hk := next_ackPipe h (r := r)
  refine ⟨fun _ => ?_, fun _ => ?_, fun _ => hr hs, ?_, ?_, ?_, fun _ => ?_, ?_, ?_, fun _ => ?_,
    fun _ => ?_, ?_⟩
  · simp [next_stall h, ht]
  · simp [next_lastAddr, ht, haddr]
  · simp [hk, h₁]
  · omega
  · omega
  · simp [next_lasts, next_preAck h, ht]
  · omega
  · omega
  · simp [hl, next_rPipeReq, hpre, hs, hn]
  · rw [step_oWbData_eq, data_complete h h₁, hl, answered_more]
  · have hn := line_next h hh hw (answered a x.left) a r.addr
    rw [next_pending, hh.queue, ← hn, ht, hl, answered_more, haddr]
    simp

theorem invariant_next (h : Invariant mem x) (hr : r.stb = true → r.cyc = true)
    (hw : Timely x r) : Invariant mem (x.next mem r) := by
  obtain ⟨a, h, hh⟩ := h
  cases ht : x.taken r
  · exact ⟨a, transfer_idle h ht, handshake_idle h hh hr ht hw⟩
  · have hn := taken_left hh ht
    by_cases h₀ : x.left = 0
    · have hp := (hh.nextUp (by omega)).trans (hw.ended ht h₀)
      exact ⟨r.addr, transfer_fresh h ht hp h₀, handshake_fresh h hh hr ht hw h₀⟩
    · have h₁ : x.left = 1 := by omega
      have hp := (hh.nextUp (by omega)).trans (hw.last ht h₁).1
      exact ⟨a + 1, transfer_more h ht hp h₁, handshake_more h hh hr ht hw h₁⟩

theorem framed_iff_timely (h : Invariant mem x) : Framed mem x r ↔ Timely x r := by
  obtain ⟨a, h, hh⟩ := h
  have hc := csN_eq h
  constructor
  · intro hf
    refine ⟨fun ht h₁ => ?_, fun ht h₀ => ?_, fun hb hcyc => ?_⟩
    · cases hp : x.core.rPipeReq
      · have hcs := hf.command ht hp
        simp [hc, h₁, h.high (by omega)] at hcs
      · exact ⟨(hh.nextUp (by omega)).symm.trans hp, (hf.continuation ht hp).2.2⟩
    · cases hp : x.core.rPipeReq
      · exact (hh.nextUp (by omega)).symm.trans hp
      · have hcs := (hf.continuation ht hp).2.1
        simp [hc, h₀] at hcs
    · obtain ⟨w, hw, -⟩ := hf.acknowledged hb hcyc
      cases hheld : x.held
      · have hpre : x.core.preAck = false := by grind [hh.held]
        simp [hh.queue, Board.line, hheld, hpre] at hw
      · rfl
  · intro hw
    refine ⟨fun ht hp => ?_, fun ht hp => ?_, fun hb hcyc => ?_⟩
    · have hn := taken_left hh ht
      by_cases h₁ : x.left = 1
      · rw [hh.nextUp (by omega), (hw.last ht h₁).1] at hp
        cases hp
      · right
        rw [hc]
        simp
        omega
    · have hn := taken_left hh ht
      by_cases h₀ : x.left = 0
      · rw [hh.nextUp (by omega), hw.ended ht h₀] at hp
        cases hp
      · exact ⟨h.high (by omega), by simp [hc, h₀], (hw.last ht (by omega)).2⟩
    · refine ⟨answered a x.left, ?_, hh.ackData hb⟩
      simp [hh.queue, Board.line, hb, hw.cycle hb hcyc]

theorem invariant_init (h : x.Init) : Invariant mem x := by
  obtain ⟨a, ha⟩ := h.core.dataPipe
  have hl := h.left
  have hc := h.core
  have hk := h.chip
  refine ⟨a, ⟨by omega, hc.maintenance, hc.mState, ?_, ?_, ?_, ?_, ?_, ?_, ?_, fun _ => h.high⟩, ?_⟩
  · rw [hc.busyPipe, hl]
    rfl
  · rw [hc.clkPipe, hl]
    rfl
  · rw [hc.modPipe, hl]
    rfl
  · simp [ha, hl]
  · rw [hl]
    exact ⟨⟨hk.mQuadMode, .inl ⟨hk.mState, by simp [hk.mCount]⟩, by simp, by simp, by simp⟩,
      by simp [hk.mLastSck]⟩
  · omega
  · omega
  · exact ⟨fun _ => hc.oWbStall, by simp [hc.preAck], by simp [hc.preAck], by simp [hc.ackPipe],
      by omega, by omega, fun _ => h.lasts.trans hc.preAck.symm, by omega, by omega,
      by simp [hc.oWbAck], by simp [hc.oWbAck],
      by simp [h.pending, Board.line, hc.oWbAck, hc.preAck]⟩

/-- In a run whose clocks are timely, a clock is framed if and only if it is timely. -/
theorem framed_iff_timely_of_run (mem : BitVec 24 → BitVec 8) (x : Board)
    (hx : ((system mem).restrict Timely).Reachable x) (r : Request) :
    Framed mem x r ↔ Timely x r := by
  have hi : Invariant mem x := hx.invariant (fun _ => invariant_init)
    fun _ _ h ha => invariant_next h ha.1 ha.2
  exact framed_iff_timely hi

/-- The bus side during start-up: stalled, the pipes reloaded at every clock. -/
structure Starting (s : State) : Prop where
  maintenance : s.maintenance = true
  busyPipe : s.busyPipe = 0x3fffff
  preAck : s.preAck = false
  rPipeReq : s.rPipeReq = false
  oWbStall : s.oWbStall = true
  ackPipe : s.ackPipe = false
  oWbAck : s.oWbAck = false

def fromPowerUp : System State Input where
  init := PowerUp
  allowed _ i := i.iReset = false
  next := step

theorem startedUp_step {s : State} {i : Input} (h : Starting s) (hi : i.iReset = false) :
    Starting (step s i) ∨ StartedUp (step s i) := by
  have hr : request s i = false := by simp [request, h.oWbStall]
  have hb : (step s i).busyPipe = 0x3fffff := by simp [access, hr, h.maintenance]
  have hs : (step s i).oWbStall = true := by simp [access, hr, h.busyPipe]
  have hp : (step s i).preAck = false := by simp [access, h.maintenance]
  have hq : (step s i).rPipeReq = false := by simp [access, pipeCondition, h.preAck]
  have hk : (step s i).ackPipe = false := by simp [access, h.preAck]
  have ha : (step s i).oWbAck = false := by simp [access, h.preAck]
  cases hm : (step s i).maintenance
  · refine .inr ⟨hm, maintenance_ends hi hm, hb, ?_, ?_, ⟨i.iWbAddr, ?_⟩, hp, hq,
      hs, hk, ha⟩
    all_goals simp [access, h.maintenance]
  · exact .inl ⟨hm, hb, hp, hq, hs, hk, ha⟩

/-- Every run from power-up is still starting, or has passed through `StartedUp`. -/
theorem startedUp_of_run {s t : State} {is : List Input} (hs : PowerUp s)
    (hr : fromPowerUp.Run s is t) :
    Starting t ∨ ∃ js ks u, is = js ++ ks ∧ fromPowerUp.Run s js u ∧ StartedUp u ∧
      fromPowerUp.Run u ks t := by
  induction hr with
  | nil =>
    exact .inl ⟨hs.maintenance, hs.busyPipe, hs.preAck, hs.rPipeReq, hs.oWbStall, hs.ackPipe,
      hs.oWbAck⟩
  | @snoc is t i hr hi ih =>
    obtain hst | ⟨js, ks, u, rfl, hj, hu, hk⟩ := ih
    · obtain h | h := startedUp_step hst hi
      · exact .inl h
      · exact .inr ⟨is ++ [i], [], step t i, by simp, hr.snoc hi, h, .nil⟩
    · exact .inr ⟨js, ks ++ [i], u, by simp, hj, hu, hk.snoc hi⟩

instance (mem : BitVec 24 → BitVec 8) (x : Board) (r : Request) :
    Decidable ((system mem).allowed x r) :=
  inferInstanceAs (Decidable (r.stb = true → r.cyc = true))

instance (x : Board) (r : Request) : Decidable (Timely x r) :=
  decidable_of_iff
    ((x.taken r = true → x.left = 1 → x.nextUp = true ∧ r.addr = x.core.lastAddr + 1) ∧
      (x.taken r = true → x.left = 0 → x.nextUp = false) ∧
      (x.core.oWbAck = true → r.cyc = true → x.held = true))
    ⟨fun ⟨h₁, h₂, h₃⟩ => ⟨h₁, h₂, h₃⟩, fun ⟨h₁, h₂, h₃⟩ => ⟨h₁, h₂, h₃⟩⟩

instance (mem : BitVec 24 → BitVec 8) (x : Board) (r : Request) :
    Decidable (((system mem).restrict Timely).allowed x r) :=
  inferInstanceAs (Decidable ((r.stb = true → r.cyc = true) ∧ Timely x r))

def board : Board where
  core :=
    { maintenance := false, mCounter := 197, mState := 3, mMod := 0, mCsN := false, mClk := 1
      mData := 0, busyPipe := 0x3fffff, dataPipe := command 0, preAck := false
      rPipeReq := false, lastAddr := 0, clkPipe := clkStart, modPipe := 0, oWbStall := true
      ackPipe := false, oWbAck := false, oWbData := 0 }
  chip :=
    { mState := .quadReadCmd, mQuadMode := true, mLastSck := true, mCount := 8, mIreg := 0xeb
      mOreg := 0, mAddr := 0, mModeByte := 0 }
  lastQspiDat := 0
  left := 22
  high := false
  pending := []
  held := false
  lasts := false
  nextUp := false

theorem board_init : board.Init :=
  ⟨⟨rfl, rfl, rfl, rfl, rfl, ⟨0, rfl⟩, rfl, rfl, rfl, rfl, rfl⟩, ⟨rfl, rfl, rfl, rfl⟩, rfl, rfl,
    rfl, rfl, rfl⟩

/-- Every byte is the low byte of its address. -/
def bytes (a : BitVec 24) : BitVec 8 := a.setWidth 8

def quiet (n : Nat) : List Request := List.replicate n ⟨false, false, 0⟩

def waiting (n : Nat) : List Request := List.replicate n ⟨true, false, 0⟩

def asking (a : BitVec 22) (n : Nat) : List Request := List.replicate n ⟨true, true, a⟩

/-- A read, and then the next word asked for in time: three clocks before the end. -/
def nextInTime : List Request :=
  quiet 22 ++ asking 0x10 1 ++ waiting 19 ++ asking 0x11 3 ++ waiting 8

theorem framed_iff_timely_nextInTime :
    Framed bytes (nextInTime.foldl (Board.next bytes) board) ⟨true, false, 0⟩ ↔
      Timely (nextInTime.foldl (Board.next bytes) board) ⟨true, false, 0⟩ :=
  framed_iff_timely_of_run bytes _
    (System.Reachable.foldl (M := (system bytes).restrict Timely)
      (System.reachable_init board_init) (by decide +kernel)) _

/-- A read, and then the next word asked for from the last clock of chip select on. -/
def nextTooLate : List Request :=
  quiet 22 ++ asking 0x10 1 ++ waiting 21 ++ asking 0x11 1

/-- It is served without an address phase after chip select has gone high, and what is
acknowledged is not the word. -/
theorem nextTooLate_not_framed :
    (∃ x r, (system bytes).Reachable x ∧ (system bytes).allowed x r ∧ x.taken r = true ∧
      x.core.rPipeReq = true ∧ x.core.oQspiCsN = true ∧ ¬Framed bytes x r) ∧
    ∃ x, (system bytes).Reachable x ∧ x.core.oWbAck = true ∧ x.pending = [0x11] ∧
      x.core.oWbData ≠ word bytes 0x11 := by
  have h : (system bytes).Reachable (nextTooLate.foldl (Board.next bytes) board) :=
    System.Reachable.foldl (M := system bytes) (System.reachable_init board_init)
      (by decide +kernel)
  refine ⟨⟨_, ⟨true, true, 0x11⟩, h, by decide, by decide +kernel, by decide +kernel,
    by decide +kernel, fun hf => ?_⟩, ?_⟩
  · have hc := (hf.continuation (by decide +kernel) (by decide +kernel)).2.1
    revert hc
    decide +kernel
  · exact ⟨_, System.Reachable.foldl (M := system bytes) h
      (by decide +kernel : (system bytes).Admits _ (asking 0x11 1 ++ waiting 8)), by decide +kernel,
      by decide +kernel, by decide +kernel⟩

end S6Soc.FlashXpress
