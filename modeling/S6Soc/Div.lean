import Mathlib.Tactic.Basic

/-! The divider `div`: registers, inputs and one clock. -/
namespace S6Soc.Div

structure State where
  rBusy : Bool
  oBusy : Bool
  zeroDivisor : Bool
  oValid : Bool
  oErr : Bool
  rBit : BitVec 5
  lastBit : Bool
  preSign : Bool
  rZ : Bool
  rDividend : BitVec 32
  rDivisor : BitVec 63
  rSign : Bool
  oQuotient : BitVec 32
  rC : Bool

structure Input where
  iRst : Bool
  iWr : Bool
  iSigned : Bool
  iNumerator : BitVec 32
  iDenominator : BitVec 32

/-- The values of the `initial` statements; the other registers have none. -/
structure State.Initial (s : State) : Prop where
  rBusy : s.rBusy = false
  oBusy : s.oBusy = false
  zeroDivisor : s.zeroDivisor = false
  oValid : s.oValid = false
  oErr : s.oErr = false
  lastBit : s.lastBit = false
  preSign : s.preSign = false
  rSign : s.rSign = false

def State.diff (s : State) : BitVec 33 :=
  s.rDividend.setWidth 33 - (s.rDivisor.extractLsb' 0 32).setWidth 33

/-- The divisor, shifted as far as it is, can be subtracted. -/
def State.fits (s : State) : Bool := s.rDivisor.extractLsb' 32 31 == 0 && !s.diff.getLsbD 32

def State.oFlags (s : State) : BitVec 4 :=
  BitVec.ofBool false ++ BitVec.ofBool (s.oQuotient.getLsbD 31) ++ BitVec.ofBool s.rC ++
    BitVec.ofBool s.rZ

def step (s : State) (i : Input) : State where
  rBusy :=
    if i.iRst then false
    else if i.iWr then true
    else if s.lastBit || s.zeroDivisor then false
    else s.rBusy
  oBusy :=
    if i.iRst then false
    else if i.iWr then true
    else if (s.lastBit && !s.rSign) || s.zeroDivisor then false
    else if !s.rBusy then false
    else s.oBusy
  zeroDivisor :=
    if i.iRst then false
    else if i.iWr then i.iDenominator == 0
    else if !s.rBusy then false
    else s.zeroDivisor
  oValid :=
    if i.iRst then false
    else if s.rBusy then
      if s.lastBit || s.zeroDivisor then s.zeroDivisor || !s.rSign else s.oValid
    else if s.rSign then !s.zeroDivisor
    else false
  oErr :=
    if i.iRst || s.oValid then false
    else (s.rBusy || s.rSign) && s.zeroDivisor
  rBit := if s.rBusy && !s.preSign then s.rBit - 1 else 31
  lastBit := s.rBusy && s.rBit == 1
  preSign := i.iWr && i.iSigned
  rZ :=
    if s.rBusy && s.fits then false
    else if !s.rBusy && !s.rSign then true
    else s.rZ
  rDividend :=
    if s.preSign then (if s.rDividend.getLsbD 31 then -s.rDividend else s.rDividend)
    else if s.rBusy && s.fits then s.diff.setWidth 32
    else if !s.rBusy then i.iNumerator
    else s.rDividend
  rDivisor :=
    if s.preSign then
      if s.rDivisor.getLsbD 62 then
        (-s.rDivisor.extractLsb' 31 32) ++ s.rDivisor.extractLsb' 0 31
      else s.rDivisor
    else if s.rBusy then s.rDivisor >>> 1
    else i.iDenominator ++ (0 : BitVec 31)
  rSign :=
    if s.preSign then s.rDivisor.getLsbD 62 ^^ s.rDividend.getLsbD 31
    else s.rBusy && s.rSign && !s.zeroDivisor
  oQuotient :=
    if s.rBusy then (s.oQuotient <<< 1) ||| (if s.fits then 1 else 0)
    else if s.rSign then -s.oQuotient
    else 0
  rC := s.rBusy && (s.diff == 0 || s.rDividend == 0)

/-- A result will come unless the divider is reset. -/
def State.pending (s : State) : Bool := s.rBusy || (s.rSign && !s.zeroDivisor)

def State.active (s : State) : Bool := s.pending || s.oValid

/-- A sign change is left over from a division that a reset took away. -/
def State.orphan (s : State) : Bool := s.rSign && !s.zeroDivisor && !s.oBusy

/-- What the registers of the divider have to do with each other in every clock. -/
structure State.Sound (s : State) : Prop where
  busy : s.rBusy → s.oBusy
  preSign : s.preSign → s.rBusy ∧ !s.lastBit
  valid : s.oValid → !s.oBusy
  err : s.oErr → s.oValid
  zero : s.zeroDivisor → !s.rBusy → s.oValid
  sign : s.oBusy → !s.rBusy → s.rSign ∧ !s.zeroDivisor

/-- Nothing is started in the clock of a reset, or while a result is to come. -/
structure Fits (s : State) (i : Input) : Prop where
  rst : i.iWr → !i.iRst
  free : i.iWr → !s.pending

variable {s : State} {i : Input}

theorem State.Sound.step (h : s.Sound) (hi : Fits s i) : (step s i).Sound := by
  obtain ⟨hb, hp, hv, he, hz, hs⟩ := h
  obtain ⟨hr, hf⟩ := hi
  constructor <;> simp only [Div.step, State.pending] at * <;> grind

theorem State.Sound.pending_of_busy (h : s.Sound) (hb : s.oBusy) : s.pending := by
  cases hr : s.rBusy with
  | true => simp [State.pending, hr]
  | false =>
    have := h.sign hb (by simp [hr])
    simp_all [State.pending]

/-- Only what is started or under way is active a clock later. -/
theorem State.Sound.of_active_step (h : s.Sound) (ha : (Div.step s i).active) :
    i.iWr ∨ s.pending := by
  have := h.preSign
  have := h.zero
  simp only [State.active, State.pending, Div.step] at *
  grind

/-- A reset leaves nothing behind but the change of a sign. -/
theorem orphan_of_active_reset (hi : Fits s i) (hr : i.iRst)
    (ha : (Div.step s i).active) : (Div.step s i).orphan := by
  have := hi.rst
  simp only [State.active, State.pending, State.orphan, Div.step] at *
  grind

theorem State.Sound.reset_of_orphan (h : s.Sound) (hi : Fits s i)
    (ho : (Div.step s i).orphan) : i.iRst := by
  have := h.busy
  have := h.preSign
  have := hi.free
  simp only [State.orphan, State.pending, Div.step] at *
  grind

end S6Soc.Div
