import Mathlib.Tactic.Basic
import Mathlib.Tactic.IntervalCases

/-! The simulated QSPI flash chip, as far as a controller that only reads can drive it:
the quad I/O read command and its continuous-read mode. -/
namespace S6Soc.QspiFlash

inductive ReadState
  | quadReadCmd
  | quadRead
  | quadReadIdle
  deriving DecidableEq

structure Chip where
  mState : ReadState
  mQuadMode : Bool
  mLastSck : Bool
  mCount : Nat
  mIreg : BitVec 32
  mOreg : BitVec 32
  mAddr : BitVec 24
  mModeByte : BitVec 8

def Chip.qoreg (c : Chip) (b : BitVec 8) : Chip :=
  { c with mOreg := (c.mOreg &&& ~~~0xff) ||| b.setWidth 32 }

/-- `QOREG(m_mem[m_addr++])`. -/
def Chip.sendByte (mem : BitVec 24 → BitVec 8) (c : Chip) : Chip :=
  { c.qoreg (mem c.mAddr) with mAddr := c.mAddr + 1 }

/-- The mode byte asks for another quad read after this one. -/
def continuous (mode : BitVec 8) : Bool := (mode &&& 0xf0) == 0xa0

/-- Chip select is high. -/
def Chip.deselect (c : Chip) : Chip :=
  let keeps := continuous c.mModeByte
  { c with
    mLastSck := true
    mIreg := 0
    mOreg := 0xfe
    mCount := 0
    mState := if keeps then .quadReadIdle else c.mState
    mQuadMode := if c.mState = .quadReadIdle then c.mQuadMode else keeps && c.mQuadMode }

def Chip.shiftIn (c : Chip) (dat : BitVec 4) : Chip :=
  { c with
    mIreg := c.mIreg <<< 4 ||| dat.setWidth 32
    mCount := c.mCount + 4
    mOreg := c.mOreg <<< 4 }

/-- What follows a nibble taken in, according to how many came before. -/
def Chip.respond (mem : BitVec 24 → BitVec 8) (c : Chip) : Chip :=
  match c.mState with
  | .quadReadIdle =>
    if c.mCount = 24 then
      { c with mAddr := c.mIreg.setWidth 24, mState := .quadRead, mOreg := 0 }
    else { c with mOreg := 0 }
  | .quadReadCmd =>
    if c.mCount % 8 ≠ 0 then c
    else if c.mCount = 32 then { c.qoreg 0 with mAddr := c.mIreg.setWidth 24 }
    else if c.mCount = 32 + 24 then
      { (c.qoreg 0).sendByte mem with mModeByte := c.mIreg.extractLsb' 16 8 }
    else if c.mCount > 32 + 24 then (c.qoreg 0).sendByte mem
    else { c with mOreg := 0 }
  | .quadRead =>
    if c.mCount % 8 ≠ 0 then c
    else if c.mCount = 32 then { c.qoreg 0 with mModeByte := c.mIreg.setWidth 8 }
    else if c.mCount ≥ 32 + 16 then (c.qoreg 0).sendByte mem
    else { c with mOreg := 0 }

/-- A falling clock edge in quad mode. -/
def Chip.fall (mem : BitVec 24 → BitVec 8) (c : Chip) (dat : BitVec 4) : Chip :=
  (c.shiftIn dat).respond mem

def Chip.lines (c : Chip) : BitVec 4 :=
  if c.mQuadMode then c.mOreg.extractLsb' 8 4 else if c.mOreg.getLsbD 8 then 2 else 0

/-- One evaluation of the chip: its new state and what it puts on the data lines. A chip
that has left quad mode would decode serial commands; it ignores its clock here. -/
def Chip.call (mem : BitVec 24 → BitVec 8) (c : Chip) (csn sck : Bool) (dat : BitVec 4) :
    Chip × BitVec 4 :=
  if csn then (c.deselect, dat)
  else if !c.mLastSck || sck == c.mLastSck || !c.mQuadMode then
    ({ c with mLastSck := sck }, c.lines)
  else
    let c' := { c.fall mem dat with mLastSck := sck }
    (c', c'.lines)

/-- A system clock: `sck` holds the levels of its two halves. -/
def Chip.clock (mem : BitVec 24 → BitVec 8) (c : Chip) (csn : Bool) (sck : BitVec 2)
    (dat : BitVec 4) : Chip × BitVec 4 :=
  if sck = 3 ∨ sck = 0 then c.call mem csn (sck.getLsbD 0) dat
  else (c.call mem csn (sck.getLsbD 1) dat).1.call mem csn (sck.getLsbD 0) dat

/-- What the controller samples one clock later: it sees its own lines while it drives them. -/
def sampled (mod : BitVec 2) (dat lines : BitVec 4) : BitVec 4 :=
  if mod.getLsbD 1 then (if mod.getLsbD 0 then lines else dat)
  else ((lines ||| 0xc) &&& 0xe) ||| (dat &&& 1)

def byteAddr (a : BitVec 22) : BitVec 24 := a ++ 0#2

/-- The word a read of word address `a` is to return. -/
def word (mem : BitVec 24 → BitVec 8) (a : BitVec 22) : BitVec 32 :=
  mem (byteAddr a) ++ mem (byteAddr a + 1) ++ mem (byteAddr a + 2) ++ mem (byteAddr a + 3)

variable {mem : BitVec 24 → BitVec 8} {c : Chip} {cmd : BitVec 32} {a b : BitVec 24} {p : Nat}

@[simp] theorem clock_deselected (dat : BitVec 4) :
    c.clock mem true 3#2 dat = (c.deselect, dat) := by
  simp [Chip.clock, Chip.call]

/-- The half clock before the first pulse of a command is already a falling edge. -/
theorem clock_start (hl : c.mLastSck = true) (hq : c.mQuadMode = true) (dat : BitVec 4) :
    c.clock mem false 0 dat =
      ({ c.fall mem dat with mLastSck := false }, (c.fall mem dat).lines) := by
  simp [Chip.clock, Chip.call, hl, hq, Chip.lines]

/-- The clock after that is no edge at all: the level is low already. -/
theorem clock_settle (hl : c.mLastSck = false) (dat : BitVec 4) :
    c.clock mem false 1 dat = ({ c with mLastSck := true }, c.lines) := by
  simp [Chip.clock, Chip.call, hl, Chip.lines]

theorem clock_pulse (hl : c.mLastSck = true) (hq : c.mQuadMode = true) (dat : BitVec 4) :
    c.clock mem false 1 dat =
      ({ c.fall mem dat with mLastSck := true }, (c.fall mem dat).lines) := by
  simp [Chip.clock, Chip.call, hl, hq, Chip.lines]

/-- `p` nibbles of the read command `cmd` are in, dummy nibbles included. -/
structure Addressing (cmd : BitVec 32) (p : Nat) (c : Chip) : Prop where
  quad : c.mQuadMode = true
  phase : (c.mState = .quadReadCmd ∧ c.mCount = 8 + 4 * p) ∨
    (c.mState = (if p < 6 then .quadReadIdle else .quadRead) ∧ c.mCount = 4 * p)
  ireg : ∀ b < 32, b < 4 * p →
    c.mIreg.getLsbD b = (decide (4 * p ≤ 32 + b) && cmd.getLsbD (32 + b - 4 * p))
  addr : 6 ≤ p → c.mAddr = cmd.extractLsb' 8 24
  mode : 8 ≤ p → c.mState = .quadRead → c.mModeByte = cmd.setWidth 8

/-- The chip is sending byte `b`; `half` says whether its first nibble is already out. -/
structure Streaming (mem : BitVec 24 → BitVec 8) (b : BitVec 24) (half : Bool) (c : Chip) :
    Prop where
  quad : c.mQuadMode = true
  phase : (c.mState = .quadReadCmd ∧ 32 + 24 ≤ c.mCount) ∨
    (c.mState = .quadRead ∧ 32 + 16 ≤ c.mCount)
  aligned : c.mCount % 8 = if half then 4 else 0
  mode : continuous c.mModeByte = true
  addr : c.mAddr = b + 1
  oreg : c.mOreg.extractLsb' (if half then 4 else 0) 8 = mem b

/-- The chip will take the next falling edge after a deselection as an address nibble. -/
structure Readable (c : Chip) : Prop where
  quad : c.mQuadMode = true
  mode : c.mState = .quadReadIdle ∨ continuous c.mModeByte = true

theorem Streaming.readable {half : Bool} (h : Streaming mem b half c) : Readable c :=
  ⟨h.quad, .inr h.mode⟩

theorem readable_deselect (h : Readable c) : Readable c.deselect := by
  obtain ⟨hq, hs | hm⟩ := h
  · exact ⟨by simp [Chip.deselect, hs, hq], .inl (by simp [Chip.deselect, hs])⟩
  · exact ⟨by simp [Chip.deselect, hm, hq], .inl (by simp [Chip.deselect, hm])⟩

theorem addressing_deselect (h : Readable c) : Addressing cmd 0 c.deselect := by
  have hr := readable_deselect h
  refine ⟨hr.quad, .inr ⟨?_, by simp [Chip.deselect]⟩, by simp, by simp, by simp⟩
  obtain ⟨-, hs | hm⟩ := h
  · simp [Chip.deselect, hs]
  · simp [Chip.deselect, hm]

theorem addressing_setLastSck (h : Addressing cmd p c) (l : Bool) :
    Addressing cmd p { c with mLastSck := l } := ⟨h.1, h.2, h.3, h.4, h.5⟩

theorem streaming_setLastSck {half : Bool} (h : Streaming mem b half c) (l : Bool) :
    Streaming mem b half { c with mLastSck := l } := ⟨h.1, h.2, h.3, h.4, h.5, h.6⟩

/-- The nibble of `cmd` that the controller drives after `p` shifts. -/
def nibble (cmd : BitVec 32) (p : Nat) : BitVec 4 := (cmd <<< (4 * p)).extractLsb' 28 4

theorem ireg_shiftIn (h : Addressing cmd p c) {b : Nat} (hb : b < 32) (hp : b < 4 * (p + 1)) :
    (c.shiftIn (nibble cmd p)).mIreg.getLsbD b =
      (decide (4 * (p + 1) ≤ 32 + b) && cmd.getLsbD (32 + b - 4 * (p + 1))) := by
  simp only [Chip.shiftIn, nibble, BitVec.getLsbD_or, BitVec.getLsbD_shiftLeft,
    BitVec.getLsbD_setWidth, BitVec.getLsbD_extractLsb']
  by_cases h4 : b < 4
  · have e : 28 + b - 4 * p = 32 + b - 4 * (p + 1) := by omega
    simp [h4, hb, e, show 28 + b < 32 by omega]
    grind
  · have e : 32 + (b - 4) - 4 * p = 32 + b - 4 * (p + 1) := by omega
    have := h.ireg (b - 4) (by omega) (by omega)
    simp [h4, hb, this, e]
    grind

@[simp] theorem respond_quad : (c.respond mem).mQuadMode = c.mQuadMode := by
  cases h : c.mState <;>
    simp [Chip.respond, h, Chip.qoreg, Chip.sendByte, apply_ite Chip.mQuadMode]

@[simp] theorem respond_count : (c.respond mem).mCount = c.mCount := by
  cases h : c.mState <;>
    simp [Chip.respond, h, Chip.qoreg, Chip.sendByte, apply_ite Chip.mCount]

@[simp] theorem respond_ireg : (c.respond mem).mIreg = c.mIreg := by
  cases h : c.mState <;>
    simp [Chip.respond, h, Chip.qoreg, Chip.sendByte, apply_ite Chip.mIreg]

theorem respond_state : (c.respond mem).mState =
    if c.mState = .quadReadIdle ∧ c.mCount = 24 then .quadRead else c.mState := by
  cases h : c.mState <;>
    simp [Chip.respond, h, Chip.qoreg, Chip.sendByte, apply_ite Chip.mState]

/-- Until the data phase nothing is sent: the address is latched at the sixth nibble. -/
theorem respond_addr (hs : c.mCount < 48 ∨ c.mState = .quadReadCmd ∧ c.mCount < 56) :
    (c.respond mem).mAddr =
      if c.mState = .quadReadIdle ∧ c.mCount = 24 ∨ c.mState = .quadReadCmd ∧ c.mCount = 32 then
        c.mIreg.setWidth 24
      else c.mAddr := by
  cases h : c.mState
  · simp only [Chip.respond, h, Chip.qoreg]
    split_ifs <;> simp_all
    omega
  · simp only [Chip.respond, h, Chip.qoreg]
    split_ifs <;> simp_all
    omega
  · simp [Chip.respond, h, apply_ite Chip.mAddr]

theorem respond_mode_read (h : c.mState = .quadRead) :
    (c.respond mem).mModeByte = if c.mCount = 32 then c.mIreg.setWidth 8 else c.mModeByte := by
  simp only [Chip.respond, h, Chip.qoreg, Chip.sendByte]
  split_ifs <;> first | rfl | omega

/-- The bits the last `4 * p` taken in leave in the input register. -/
theorem extract_ireg (hi : ∀ b < 32, b < 4 * p →
      c.mIreg.getLsbD b = (decide (4 * p ≤ 32 + b) && cmd.getLsbD (32 + b - 4 * p)))
    {k n m : Nat} (hn : k + n ≤ 32) (hp : k + n ≤ 4 * p) (h4 : 4 * p ≤ 32 + k)
    (hm : m = 32 + k - 4 * p) :
    c.mIreg.extractLsb' k n = cmd.extractLsb' m n := by
  ext b hb
  have e : 32 + (k + b) - 4 * p = m + b := by omega
  simp [hi (k + b) (by omega) (by omega), e]
  omega

theorem addressing_fall (h : Addressing cmd p c) (hp : p < 11) :
    Addressing cmd (p + 1) (c.fall mem (nibble cmd p)) := by
  have hi : ∀ b < 32, b < 4 * (p + 1) →
      (c.shiftIn (nibble cmd p)).mIreg.getLsbD b =
        (decide (4 * (p + 1) ≤ 32 + b) && cmd.getLsbD (32 + b - 4 * (p + 1))) :=
    fun b hb hb' => ireg_shiftIn h hb hb'
  have hq : (c.shiftIn (nibble cmd p)).mQuadMode = true := h.quad
  have ha : 6 ≤ p → (c.shiftIn (nibble cmd p)).mAddr = cmd.extractLsb' 8 24 := h.addr
  have hm : 8 ≤ p → (c.shiftIn (nibble cmd p)).mState = .quadRead →
      (c.shiftIn (nibble cmd p)).mModeByte = cmd.setWidth 8 := h.mode
  have hs : ((c.shiftIn (nibble cmd p)).mState = .quadReadCmd ∧
        (c.shiftIn (nibble cmd p)).mCount = 8 + 4 * (p + 1)) ∨
      ((c.shiftIn (nibble cmd p)).mState = (if p < 6 then .quadReadIdle else .quadRead) ∧
        (c.shiftIn (nibble cmd p)).mCount = 4 * (p + 1)) := by
    obtain ⟨hs, hc⟩ | ⟨hs, hc⟩ := h.phase
    · exact .inl ⟨hs, by simp [Chip.shiftIn, hc]; omega⟩
    · exact .inr ⟨hs, by simp [Chip.shiftIn, hc]; omega⟩
  unfold Chip.fall
  generalize c.shiftIn (nibble cmd p) = d at *
  refine ⟨by simpa using hq, ?_, by simpa using hi, fun h6 => ?_, fun h8 hr => ?_⟩
  · obtain ⟨hs, hc⟩ | ⟨hs, hc⟩ := hs
    · exact .inl ⟨by simp [respond_state, hs], by simp [hc]⟩
    · refine .inr ⟨?_, by simp [hc]⟩
      rw [respond_state, hs, hc]
      grind
  · rw [respond_addr (by grind)]
    by_cases h5 : p = 5
    · subst h5
      rw [if_pos (by grind), BitVec.setWidth_eq_extractLsb' (by omega)]
      exact extract_ireg hi (by omega) (by omega) (by omega) (by omega)
    · rw [if_neg (by grind)]
      exact ha (by omega)
  · rw [respond_state] at hr
    have hr' : d.mState = .quadRead := by grind
    have hc : d.mCount = 4 * (p + 1) := by grind
    rw [respond_mode_read hr']
    by_cases h7 : p = 7
    · subst h7
      rw [if_pos (by omega), BitVec.setWidth_eq_extractLsb' (by omega),
        BitVec.setWidth_eq_extractLsb' (by omega)]
      exact extract_ireg hi (by omega) (by omega) (by omega) (by omega)
    · rw [if_neg (by omega)]
      exact hm (by omega) hr'

theorem qoreg_low (d : BitVec 8) : (c.qoreg d).mOreg.extractLsb' 0 8 = d := by
  ext b hb
  interval_cases b <;> simp [Chip.qoreg]

theorem lines_eq (h : c.mQuadMode = true) : c.lines = c.mOreg.extractLsb' 8 4 := by
  simp [Chip.lines, h]

/-- A byte is loaded at an even nibble of the data phase. -/
theorem streaming_sendByte (hq : c.mQuadMode = true)
    (hp : (c.mState = .quadReadCmd ∧ 32 + 24 ≤ c.mCount) ∨
      (c.mState = .quadRead ∧ 32 + 16 ≤ c.mCount))
    (h8 : c.mCount % 8 = 0) (hm : continuous c.mModeByte = true) :
    Streaming mem c.mAddr false ((c.qoreg 0).sendByte mem) :=
  ⟨hq, hp, h8, hm, rfl, qoreg_low (mem c.mAddr)⟩

/-- The last dummy nibble loads the first byte. -/
theorem streaming_fall_addressing (h : Addressing cmd 11 c)
    (hm : continuous (cmd.setWidth 8) = true) :
    Streaming mem (cmd.extractLsb' 8 24) false (c.fall mem (nibble cmd 11)) := by
  have hi : ∀ b < 32, b < 4 * 12 → (c.shiftIn (nibble cmd 11)).mIreg.getLsbD b =
      (decide (4 * 12 ≤ 32 + b) && cmd.getLsbD (32 + b - 4 * 12)) :=
    fun b hb hb' => ireg_shiftIn h hb hb'
  have hx := extract_ireg (k := 16) (n := 8) (m := 0) hi (by omega) (by omega) (by omega) (by omega)
  rw [← BitVec.setWidth_eq_extractLsb' (by omega)] at hx
  rw [← h.addr (by omega)]
  obtain ⟨hs, hc⟩ | ⟨hs, hc⟩ := h.phase
  · have e : c.fall mem (nibble cmd 11) =
        ({ c.shiftIn (nibble cmd 11) with mModeByte := cmd.setWidth 8 }.qoreg 0).sendByte mem := by
      rw [← hx]
      simp [Chip.fall, Chip.respond, Chip.shiftIn, Chip.sendByte, Chip.qoreg, hs, hc]
    rw [e]
    exact streaming_sendByte (c := { c.shiftIn _ with mModeByte := _ }) h.quad
      (.inl ⟨hs, by simp [Chip.shiftIn, hc]⟩) (by simp [Chip.shiftIn, hc]) hm
  · have e : c.fall mem (nibble cmd 11) =
        ((c.shiftIn (nibble cmd 11)).qoreg 0).sendByte mem := by
      simp [Chip.fall, Chip.respond, Chip.shiftIn, hs, hc]
    rw [e]
    exact streaming_sendByte (c := c.shiftIn _) h.quad
      (.inr ⟨hs, by simp [Chip.shiftIn, hc]⟩) (by simp [Chip.shiftIn, hc])
      (by rw [show (c.shiftIn _).mModeByte = c.mModeByte from rfl, h.mode (by omega) hs]; exact hm)

/-- First half of a byte: its high nibble goes out. -/
theorem streaming_fall_first (h : Streaming mem b false c) (dat : BitVec 4) :
    Streaming mem b true (c.fall mem dat) ∧
      (c.fall mem dat).lines = (mem b).extractLsb' 4 4 := by
  have h8 : c.mCount % 8 = 0 := h.aligned
  have e : c.fall mem dat = c.shiftIn dat := by
    obtain ⟨hs, -⟩ | ⟨hs, -⟩ := h.phase <;>
      simp [Chip.fall, Chip.respond, Chip.shiftIn, hs] <;> omega
  have ho : (c.mOreg <<< 4).extractLsb' 4 8 = mem b := by
    rw [← h.oreg]
    ext k hk
    interval_cases k <;> simp
  rw [e, lines_eq (c := c.shiftIn dat) h.quad, ← ho]
  refine ⟨⟨h.quad, ?_, by simp [Chip.shiftIn]; omega, h.mode, h.addr, ho⟩, ?_⟩
  · obtain ⟨hs, hc⟩ | ⟨hs, hc⟩ := h.phase
    · exact .inl ⟨hs, by simp [Chip.shiftIn]; omega⟩
    · exact .inr ⟨hs, by simp [Chip.shiftIn]; omega⟩
  · ext k hk
    interval_cases k <;> simp [Chip.shiftIn]

/-- Second half: its low nibble goes out and the next byte is loaded. -/
theorem streaming_fall_second (h : Streaming mem b true c) (dat : BitVec 4) :
    Streaming mem (b + 1) false (c.fall mem dat) ∧
      (c.fall mem dat).lines = (mem b).extractLsb' 0 4 := by
  have h8 : c.mCount % 8 = 4 := h.aligned
  have e : c.fall mem dat = ((c.shiftIn dat).qoreg 0).sendByte mem := by
    have h8' : (c.mCount + 4) % 8 = 0 := by omega
    obtain ⟨hs, hc⟩ | ⟨hs, hc⟩ := h.phase
    · simp [Chip.fall, Chip.respond, Chip.shiftIn, hs, h8', show c.mCount ≠ 28 by omega,
        show c.mCount ≠ 52 by omega, show 56 < c.mCount + 4 by omega]
    · simp [Chip.fall, Chip.respond, Chip.shiftIn, hs, h8', show c.mCount ≠ 28 by omega,
        show 44 ≤ c.mCount by omega]
  have hp : ((c.shiftIn dat).mState = .quadReadCmd ∧ 32 + 24 ≤ (c.shiftIn dat).mCount) ∨
      ((c.shiftIn dat).mState = .quadRead ∧ 32 + 16 ≤ (c.shiftIn dat).mCount) := by
    obtain ⟨hs, hc⟩ | ⟨hs, hc⟩ := h.phase
    · exact .inl ⟨hs, by simp [Chip.shiftIn]; omega⟩
    · exact .inr ⟨hs, by simp [Chip.shiftIn]; omega⟩
  have hs : Streaming mem _ false _ := streaming_sendByte (c := c.shiftIn dat) h.quad hp
    (by simp [Chip.shiftIn]; omega) h.mode
  rw [show (c.shiftIn dat).mAddr = b + 1 from h.addr] at hs
  rw [e, lines_eq hs.quad, ← h.oreg]
  refine ⟨hs, ?_⟩
  ext k hk
  interval_cases k <;> simp [Chip.sendByte, Chip.qoreg, Chip.shiftIn]

@[simp] theorem byteAddr_toNat (a : BitVec 22) : (byteAddr a).toNat = 4 * a.toNat := by
  have h : (byteAddr a).toNat = a.toNat <<< 2 ||| 0 := BitVec.toNat_append a 0#2
  rw [h, Nat.or_zero, Nat.shiftLeft_eq]
  omega

@[simp] theorem byteAddr_succ (a : BitVec 22) : byteAddr (a + 1#22) = byteAddr a + 4#24 := by
  apply BitVec.eq_of_toNat_eq
  simp
  omega

theorem append4_extract (b₀ b₁ b₂ b₃ : BitVec 8) {n : Nat} (h : n < 8) :
    (b₀ ++ b₁ ++ b₂ ++ b₃ : BitVec 32).extractLsb' (4 * n) 4 =
      (if n < 2 then b₃ else if n < 4 then b₂ else if n < 6 then b₁ else b₀).extractLsb'
        (4 * (n % 2)) 4 := by
  ext k hk
  rw [BitVec.getElem_extractLsb', BitVec.getElem_extractLsb', BitVec.getLsbD_append,
    BitVec.getLsbD_append, BitVec.getLsbD_append]
  interval_cases n <;> interval_cases k <;> simp

theorem word_nibble (mem : BitVec 24 → BitVec 8) (a : BitVec 22) {n : Nat} (h₁ : 1 ≤ n)
    (h₈ : n ≤ 8) :
    (word mem a).extractLsb' (4 * (n - 1)) 4 =
      (mem (byteAddr a + BitVec.ofNat 24 ((8 - n) / 2))).extractLsb'
        (if n % 2 = 0 then 4 else 0) 4 := by
  rw [word, append4_extract _ _ _ _ (by omega)]
  interval_cases n <;> simp

end S6Soc.QspiFlash
