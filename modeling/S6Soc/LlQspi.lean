import Mathlib.Tactic.Basic
import Mathlib.Tactic.ByContra
import Mathlib.Tactic.SplitIfs

/-! The serial driver `llqspi`: words of one to four bytes, a bit or four bits to a clock
of the chip, which stays selected from one word to the next while there are more. -/
namespace S6Soc.LlQspi

inductive Phase
  | idle | start | bits | ready | holding | stop | stopB
  deriving DecidableEq

structure State where
  state : Phase
  oWord : BitVec 32
  oValid : Bool
  oBusy : Bool
  oSck : Bool
  oCsN : Bool
  oMod : BitVec 2
  oDat : BitVec 4
  rSpd : Bool
  rDir : Bool
  spiLen : BitVec 6
  rWord : BitVec 32
  rInput : BitVec 31

structure Input where
  iWr : Bool
  iHold : Bool
  iWord : BitVec 32
  iLen : BitVec 2
  iSpd : Bool
  iDir : Bool
  iDat : BitVec 4

structure PowerUp (s : State) : Prop where
  state : s.state = .idle
  oSck : s.oSck = true
  oCsN : s.oCsN = true
  oDat : s.oDat = 0xd
  oValid : s.oValid = false
  oBusy : s.oBusy = false
  rInput : s.rInput = 0
  oMod : s.oMod = 0

/-- `{ 1'b0, i_len, 3'b000 } + 6'h8`: the bits of a word. -/
def lenBits (len : BitVec 2) : BitVec 6 := (0#1 ++ len ++ 0#3) + 8

/-- The bits sent in one clock of the chip. -/
def stride (spd : Bool) : BitVec 6 := if spd then 4 else 1

def modOf (spd dir : Bool) : BitVec 2 := if spd then 1#1 ++ BitVec.ofBool dir else 0

def shifted (spd : Bool) (v : BitVec 32) : BitVec 32 := if spd then v <<< 4 else v <<< 1

def datOf (spd : Bool) (v : BitVec 32) : BitVec 4 :=
  if spd then v.extractLsb' 28 4 else 6#3 ++ v.extractLsb' 31 1

/-- What the chip has sent so far, and the bits it sends now. -/
def State.sampled (s : State) (dat : BitVec 4) : BitVec 32 :=
  if s.oMod.getLsbD 1 then s.rInput.extractLsb' 0 28 ++ dat else s.rInput ++ dat.extractLsb' 1 1

/-- The last word is out, or waits to be followed: another is taken up or the chip let go. -/
def State.follow (s : State) (i : Input) : State :=
  let s' := { s with
    oCsN := false
    rSpd := i.iSpd
    rDir := i.iDir
    rWord := shifted i.iSpd i.iWord
    spiLen := lenBits i.iLen - stride i.iSpd }
  if !s.oBusy && i.iWr then
    { s' with
      state := .bits
      oBusy := true
      oSck := false
      oMod := modOf i.iSpd i.iDir
      oDat := datOf i.iSpd i.iWord }
  else
    { s' with
      oSck := true
      state := if i.iHold then .holding else .stop
      oBusy := !i.iHold }

def State.next (s : State) (i : Input) : State :=
  if s.state = .idle ∧ s.oSck then
    let s' := { s with
      oCsN := true
      oValid := false
      oBusy := false
      oMod := 0
      rWord := i.iWord
      rSpd := i.iSpd
      rDir := i.iDir }
    if i.iWr then
      { s' with state := .start, spiLen := lenBits i.iLen, oCsN := false, oBusy := true }
    else s'
  else if s.state = .start then
    { s with
      oSck := false
      state := if s.oSck then .start else .bits
      spiLen := if s.oSck then s.spiLen else s.spiLen - stride s.rSpd
      rWord := if s.oSck then s.rWord else shifted s.rSpd s.rWord
      oMod := modOf s.rSpd s.rDir
      oCsN := false
      oBusy := true
      oValid := false
      oDat := datOf s.rSpd s.rWord }
  else if !s.oSck then
    { s with oSck := true, oBusy := s.state != .ready || !i.iWr, oValid := false }
  else
    match s.state with
    | .bits =>
      { s with
        oSck := false
        oBusy := true
        oDat := datOf s.rSpd s.rWord
        rWord := shifted s.rSpd s.rWord
        spiLen := s.spiLen - stride s.rSpd
        state := if s.spiLen = stride s.rSpd then .ready else .bits
        oValid := false
        rInput := (s.sampled i.iDat).setWidth 31 }
    | .ready =>
      { s.follow i with
        oValid := true
        rInput := (s.sampled i.iDat).setWidth 31
        oWord := s.sampled i.iDat }
    | .holding => { s.follow i with oValid := false }
    | .stop => { s with oSck := true, oValid := false, oBusy := true, state := .stopB, oMod := 0 }
    | .stopB =>
      { s with
        oCsN := true
        oSck := true
        state := .idle
        oValid := false
        oBusy := true
        oMod := 0 }
    | .idle | .start =>
      { s with
        state := .stop
        oValid := false
        oBusy := true
        oCsN := true
        oSck := true
        oMod := 0
        oDat := 0xd }

/-- A transaction is open, and another word may follow. -/
def State.Open (s : State) : Prop :=
  s.state = .start ∨ s.state = .bits ∨ s.state = .ready ∨ s.state = .holding

/-- At rest. -/
def State.Quiet (s : State) : Prop := s.state = .idle ∧ s.oBusy = false

structure Sound (s : State) : Prop where
  idle : s.state = .idle → s.oSck = true ∧ s.oCsN = true
  selected : s.state ≠ .idle → s.oCsN = false
  free : s.oBusy = false →
    s.state = .idle ∨ (s.state = .ready ∧ s.oSck = true) ∨ s.state = .holding
  clock : s.state = .holding ∨ s.state = .stop ∨ s.state = .stopB → s.oSck = true
  valid : s.oValid = true → s.state = .bits ∨ s.state = .holding ∨ s.state = .stop

theorem PowerUp.sound {s : State} (h : PowerUp s) : Sound s := by
  constructor <;> simp [h.state, h.oSck, h.oCsN, h.oValid]

variable {s : State} {i : Input}

theorem next_wait (hp : s.state = .idle) (hk : s.oSck = true) (hw : i.iWr = false) :
    s.next i = { s with
      oCsN := true
      oValid := false
      oBusy := false
      oMod := 0
      rWord := i.iWord
      rSpd := i.iSpd
      rDir := i.iDir } := by
  simp [State.next, hp, hk, hw]

theorem next_begin (hp : s.state = .idle) (hk : s.oSck = true) (hw : i.iWr = true) :
    s.next i = { s with
      state := .start
      spiLen := lenBits i.iLen
      oCsN := false
      oValid := false
      oBusy := true
      oMod := 0
      rWord := i.iWord
      rSpd := i.iSpd
      rDir := i.iDir } := by
  simp [State.next, hp, hk, hw]

theorem next_start (hp : s.state = .start) : s.next i = { s with
    oSck := false
    state := if s.oSck then .start else .bits
    spiLen := if s.oSck then s.spiLen else s.spiLen - stride s.rSpd
    rWord := if s.oSck then s.rWord else shifted s.rSpd s.rWord
    oMod := modOf s.rSpd s.rDir
    oCsN := false
    oBusy := true
    oValid := false
    oDat := datOf s.rSpd s.rWord } := by
  simp [State.next, hp]

theorem next_rise (h₀ : s.state ≠ .idle) (h₁ : s.state ≠ .start) (hk : s.oSck = false) :
    s.next i = { s with
      oSck := true
      oBusy := s.state != .ready || !i.iWr
      oValid := false } := by
  simp [State.next, h₀, h₁, hk]

theorem next_bits (hp : s.state = .bits) (hk : s.oSck = true) : s.next i = { s with
    oSck := false
    oBusy := true
    oDat := datOf s.rSpd s.rWord
    rWord := shifted s.rSpd s.rWord
    spiLen := s.spiLen - stride s.rSpd
    state := if s.spiLen = stride s.rSpd then .ready else .bits
    oValid := false
    rInput := (s.sampled i.iDat).setWidth 31 } := by
  simp [State.next, hp, hk]

theorem next_ready (hp : s.state = .ready) (hk : s.oSck = true) : s.next i = { s.follow i with
    oValid := true
    rInput := (s.sampled i.iDat).setWidth 31
    oWord := s.sampled i.iDat } := by
  simp [State.next, hp, hk]

theorem next_holding (hp : s.state = .holding) (hk : s.oSck = true) :
    s.next i = { s.follow i with oValid := false } := by
  simp [State.next, hp, hk]

theorem next_stop (hp : s.state = .stop) (hk : s.oSck = true) : s.next i = { s with
    oSck := true
    oValid := false
    oBusy := true
    state := .stopB
    oMod := 0 } := by
  simp [State.next, hp, hk]

theorem next_stopB (hp : s.state = .stopB) (hk : s.oSck = true) : s.next i = { s with
    oCsN := true
    oSck := true
    state := .idle
    oValid := false
    oBusy := true
    oMod := 0 } := by
  simp [State.next, hp, hk]

/-- Whether another word of the transaction is taken up in a clock that could. -/
theorem follow_taken (hb : s.oBusy = false) (hw : i.iWr = true) : s.follow i = { s with
    oCsN := false
    rSpd := i.iSpd
    rDir := i.iDir
    rWord := shifted i.iSpd i.iWord
    spiLen := lenBits i.iLen - stride i.iSpd
    state := .bits
    oBusy := true
    oSck := false
    oMod := modOf i.iSpd i.iDir
    oDat := datOf i.iSpd i.iWord } := by
  simp [State.follow, hb, hw]

theorem follow_closed (h : ¬ (s.oBusy = false ∧ i.iWr = true)) : s.follow i = { s with
    oCsN := false
    rSpd := i.iSpd
    rDir := i.iDir
    rWord := shifted i.iSpd i.iWord
    spiLen := lenBits i.iLen - stride i.iSpd
    oSck := true
    state := if i.iHold then .holding else .stop
    oBusy := !i.iHold } := by
  rw [State.follow, if_neg (by simpa using h)]

theorem Sound.next (h : Sound s) : Sound (s.next i) := by
  cases hp : s.state with
  | idle =>
    have hk := (h.idle hp).1
    cases hw : i.iWr with
    | false => rw [next_wait hp hk hw]; constructor <;> simp [hp, hk]
    | true => rw [next_begin hp hk hw]; constructor <;> simp
  | start => rw [next_start hp]; constructor <;> cases s.oSck <;> simp
  | bits =>
    have hc := h.selected (by simp [hp])
    cases hk : s.oSck with
    | false => rw [next_rise (by simp [hp]) (by simp [hp]) hk]; constructor <;> simp [hp, hc]
    | true => rw [next_bits hp hk]; constructor <;> split_ifs <;> simp [hc]
  | ready =>
    have hc := h.selected (by simp [hp])
    cases hk : s.oSck with
    | false => rw [next_rise (by simp [hp]) (by simp [hp]) hk]; constructor <;> simp [hp, hc]
    | true =>
      rw [next_ready hp hk]
      by_cases ht : s.oBusy = false ∧ i.iWr = true
      · rw [follow_taken ht.1 ht.2]; constructor <;> simp
      · rw [follow_closed ht]
        constructor <;> cases i.iHold <;> simp
  | holding =>
    have hk := h.clock (Or.inl hp)
    rw [next_holding hp hk]
    by_cases ht : s.oBusy = false ∧ i.iWr = true
    · rw [follow_taken ht.1 ht.2]; constructor <;> simp
    · rw [follow_closed ht]
      constructor <;> cases i.iHold <;> simp
  | stop =>
    have hk := h.clock (Or.inr (Or.inl hp))
    have hc := h.selected (by simp [hp])
    rw [next_stop hp hk]; constructor <;> simp [hc]
  | stopB =>
    have hk := h.clock (Or.inr (Or.inr hp))
    rw [next_stopB hp hk]; constructor <;> simp

theorem Sound.quiet (h : Sound s) (hb : s.oBusy = false) (hc : s.oCsN = true) : s.Quiet := by
  refine ⟨?_, hb⟩
  by_contra hn
  rw [h.selected hn] at hc
  cases hc

theorem Sound.quiet_valid (h : Sound s) (hq : s.Quiet) : s.oValid = false := by
  cases hv : s.oValid with
  | false => rfl
  | true => rcases h.valid hv with hp | hp | hp <;> simp [hq.1] at hp

/-- With nothing to send the driver rests once it is idle. -/
theorem Sound.rests (h : Sound s) (hp : s.state = .idle) (hw : i.iWr = false) :
    (s.next i).Quiet := by
  rw [next_wait hp (h.idle hp).1 hw]
  exact ⟨hp, rfl⟩

theorem Sound.begins (h : Sound s) (hp : s.state = .idle) (hw : i.iWr = true) :
    (s.next i).state = .start ∧ (s.next i).oBusy = true ∧ (s.next i).rSpd = i.iSpd ∧
      (s.next i).oValid = false := by
  rw [next_begin hp (h.idle hp).1 hw]
  exact ⟨rfl, rfl, rfl, rfl⟩

/-- Held, a transaction stays open. -/
theorem Sound.open_next (h : Sound s) (ho : s.Open) (hh : i.iHold = true) :
    (s.next i).Open := by
  rcases ho with hp | hp | hp | hp
  · rw [next_start hp]
    cases s.oSck <;> simp [State.Open]
  · cases hk : s.oSck with
    | false => rw [next_rise (by simp [hp]) (by simp [hp]) hk]; simp [State.Open, hp]
    | true => rw [next_bits hp hk]; unfold State.Open; split_ifs <;> simp
  · cases hk : s.oSck with
    | false => rw [next_rise (by simp [hp]) (by simp [hp]) hk]; simp [State.Open, hp]
    | true =>
      rw [next_ready hp hk]
      by_cases ht : s.oBusy = false ∧ i.iWr = true
      · rw [follow_taken ht.1 ht.2]; simp [State.Open]
      · rw [follow_closed ht]; simp [State.Open, hh]
  · rw [next_holding hp (h.clock (Or.inl hp))]
    by_cases ht : s.oBusy = false ∧ i.iWr = true
    · rw [follow_taken ht.1 ht.2]; simp [State.Open]
    · rw [follow_closed ht]; simp [State.Open, hh]

/-- Nothing follows the word being sent. -/
def State.Lone (s : State) : Prop :=
  s.state ≠ .holding ∧ (s.state = .ready → s.oSck = true → s.oBusy = true)

theorem Sound.lone_next (h : Sound s) (hl : s.Lone) (hw : i.iWr = false) (hh : i.iHold = false) :
    (s.next i).Lone := by
  cases hp : s.state with
  | idle => rw [next_wait hp (h.idle hp).1 hw]; simp [State.Lone, hp]
  | start => rw [next_start hp]; cases s.oSck <;> simp [State.Lone]
  | bits =>
    cases hk : s.oSck with
    | false => rw [next_rise (by simp [hp]) (by simp [hp]) hk]; simp [State.Lone, hp]
    | true => rw [next_bits hp hk]; unfold State.Lone; split_ifs <;> simp
  | ready =>
    cases hk : s.oSck with
    | false => rw [next_rise (by simp [hp]) (by simp [hp]) hk]; simp [State.Lone, hp, hw]
    | true => rw [next_ready hp hk, follow_closed (by simp [hw])]; simp [State.Lone, hh]
  | holding => exact absurd hp hl.1
  | stop => rw [next_stop hp (h.clock (Or.inr (Or.inl hp)))]; simp [State.Lone]
  | stopB => rw [next_stopB hp (h.clock (Or.inr (Or.inr hp)))]; simp [State.Lone]

theorem Sound.lone_quiet (h : Sound s) (hl : s.Lone) (hb : s.oBusy = false) : s.Quiet := by
  rcases h.free hb with hp | ⟨hp, hk⟩ | hp
  · exact ⟨hp, hb⟩
  · exact absurd (hl.2 hp hk) (by simp [hb])
  · exact absurd hp hl.1

theorem lone_of_start (h : s.state = .start) : s.Lone := by
  simp [State.Lone, h]

/-- The transaction in progress does not end within one clock of a free driver. -/
theorem Sound.taken_next (h : Sound s) (hb : s.oBusy = false) (hc : s.oCsN = false) :
    (s.next i).state ≠ .idle := by
  have hf : (s.follow i).state ≠ .idle := by
    by_cases ht : s.oBusy = false ∧ i.iWr = true
    · rw [follow_taken ht.1 ht.2]; simp
    · rw [follow_closed ht]; cases i.iHold <;> simp
  rcases h.free hb with hp | ⟨hp, hk⟩ | hp
  · rw [(h.idle hp).2] at hc
    cases hc
  · rw [next_ready hp hk]
    exact hf
  · rw [next_holding hp (h.clock (Or.inl hp))]
    exact hf

theorem Sound.not_holding_next (h : Sound s) (hs : s.state ≠ .holding) (hh : i.iHold = false) :
    (s.next i).state ≠ .holding := by
  cases hp : s.state with
  | idle =>
    have hk := (h.idle hp).1
    cases hw : i.iWr with
    | false => rw [next_wait hp hk hw]; simp [hp]
    | true => rw [next_begin hp hk hw]; simp
  | start => rw [next_start hp]; cases s.oSck <;> simp
  | bits =>
    cases hk : s.oSck with
    | false => rw [next_rise (by simp [hp]) (by simp [hp]) hk]; simp [hp]
    | true => rw [next_bits hp hk]; split_ifs <;> simp
  | ready =>
    cases hk : s.oSck with
    | false => rw [next_rise (by simp [hp]) (by simp [hp]) hk]; simp [hp]
    | true =>
      rw [next_ready hp hk]
      by_cases ht : s.oBusy = false ∧ i.iWr = true
      · rw [follow_taken ht.1 ht.2]; simp
      · rw [follow_closed ht]; simp [hh]
  | holding => exact absurd hp hs
  | stop => rw [next_stop hp (h.clock (Or.inr (Or.inl hp)))]; simp
  | stopB => rw [next_stopB hp (h.clock (Or.inr (Or.inr hp)))]; simp

/-- The last bit is on the line, and the clock has just risen. -/
theorem Sound.ready_next (h : Sound s) (hn : (s.next i).state = .ready)
    (hk' : (s.next i).oSck = true) : s.state = .ready ∧ (s.next i).oBusy = !i.iWr := by
  cases hp : s.state with
  | idle =>
    have hk := (h.idle hp).1
    cases hw : i.iWr with
    | false => rw [next_wait hp hk hw] at hn; exact absurd hn (by simp [hp])
    | true => rw [next_begin hp hk hw] at hn; cases hn
  | start => rw [next_start hp] at hk'; cases hk'
  | bits =>
    cases hk : s.oSck with
    | false =>
      rw [next_rise (by simp [hp]) (by simp [hp]) hk] at hn
      exact absurd hn (by simp [hp])
    | true => rw [next_bits hp hk] at hk'; cases hk'
  | ready =>
    cases hk : s.oSck with
    | false => rw [next_rise (by simp [hp]) (by simp [hp]) hk]; simp [hp]
    | true =>
      rw [next_ready hp hk] at hn
      by_cases ht : s.oBusy = false ∧ i.iWr = true
      · rw [follow_taken ht.1 ht.2] at hn; cases hn
      · rw [follow_closed ht] at hn; cases hh : i.iHold <;> simp [hh] at hn
  | holding =>
    rw [next_holding hp (h.clock (Or.inl hp))] at hn
    by_cases ht : s.oBusy = false ∧ i.iWr = true
    · rw [follow_taken ht.1 ht.2] at hn; cases hn
    · rw [follow_closed ht] at hn; cases hh : i.iHold <;> simp [hh] at hn
  | stop => rw [next_stop hp (h.clock (Or.inr (Or.inl hp)))] at hn; cases hn
  | stopB => rw [next_stopB hp (h.clock (Or.inr (Or.inr hp)))] at hn; cases hn

/-- Where a transaction that is not held ends. -/
theorem closed_next (hs : s.state ≠ .holding)
    (hn : (s.next i).state = .stop ∨ (s.next i).state = .stopB ∨ (s.next i).state = .idle) :
    s.state = .stop ∨ s.state = .stopB ∨ s.state = .idle ∨
      (s.state = .ready ∧ s.oSck = true ∧ ¬ (s.oBusy = false ∧ i.iWr = true)) := by
  cases hp : s.state with
  | idle => simp
  | start => rw [next_start hp] at hn; cases hk : s.oSck <;> simp [hk] at hn
  | bits =>
    cases hk : s.oSck with
    | false => rw [next_rise (by simp [hp]) (by simp [hp]) hk] at hn; simp [hp] at hn
    | true => rw [next_bits hp hk] at hn; dsimp only at hn; split_ifs at hn <;> simp at hn
  | ready =>
    cases hk : s.oSck with
    | false => rw [next_rise (by simp [hp]) (by simp [hp]) hk] at hn; simp [hp] at hn
    | true =>
      by_cases ht : s.oBusy = false ∧ i.iWr = true
      · rw [next_ready hp hk, follow_taken ht.1 ht.2] at hn
        simp at hn
      · exact Or.inr (Or.inr (Or.inr ⟨rfl, rfl, ht⟩))
  | holding => exact absurd hp hs
  | stop => simp
  | stopB => simp

/-- The word being sent goes out a bit at a time. -/
structure State.Single (s : State) : Prop where
  start : s.state = .start → s.rSpd = false
  mode : s.state = .bits ∨ s.state = .ready ∨ s.state = .holding → s.oMod = 0

theorem Sound.single_next (h : Sound s) (hs : s.Single) (hi : i.iSpd = false) :
    (s.next i).Single := by
  have hfollow (hm : s.oMod = 0) : (s.follow i).Single := by
    by_cases ht : s.oBusy = false ∧ i.iWr = true
    · rw [follow_taken ht.1 ht.2]
      constructor <;> simp [modOf, hi]
    · rw [follow_closed ht]
      constructor <;> cases i.iHold <;> simp [hm]
  cases hp : s.state with
  | idle =>
    have hk := (h.idle hp).1
    cases hw : i.iWr with
    | false => rw [next_wait hp hk hw]; constructor <;> simp [hp]
    | true => rw [next_begin hp hk hw]; constructor <;> simp [hi]
  | start =>
    rw [next_start hp]
    constructor <;> simp [modOf, hs.start hp]
  | bits =>
    have hm := hs.mode (Or.inl hp)
    cases hk : s.oSck with
    | false => rw [next_rise (by simp [hp]) (by simp [hp]) hk]; constructor <;> simp [hp, hm]
    | true => rw [next_bits hp hk]; constructor <;> split_ifs <;> simp [hm]
  | ready =>
    have hm := hs.mode (Or.inr (Or.inl hp))
    cases hk : s.oSck with
    | false => rw [next_rise (by simp [hp]) (by simp [hp]) hk]; constructor <;> simp [hp, hm]
    | true =>
      rw [next_ready hp hk]
      exact ⟨(hfollow hm).start, (hfollow hm).mode⟩
  | holding =>
    rw [next_holding hp (h.clock (Or.inl hp))]
    have hf := hfollow (hs.mode (Or.inr (Or.inr hp)))
    exact ⟨hf.start, hf.mode⟩
  | stop => rw [next_stop hp (h.clock (Or.inr (Or.inl hp)))]; constructor <;> simp
  | stopB => rw [next_stopB hp (h.clock (Or.inr (Or.inr hp)))]; constructor <;> simp

/-- A word is complete one clock after the last bit was taken. -/
theorem Sound.valid_next (h : Sound s) (hv : (s.next i).oValid = true) :
    s.state = .ready ∧ s.oSck = true ∧ (s.next i).oWord = s.sampled i.iDat := by
  cases hp : s.state with
  | idle =>
    have hk := (h.idle hp).1
    cases hw : i.iWr with
    | false => rw [next_wait hp hk hw] at hv; cases hv
    | true => rw [next_begin hp hk hw] at hv; cases hv
  | start => rw [next_start hp] at hv; cases hv
  | bits =>
    cases hk : s.oSck with
    | false => rw [next_rise (by simp [hp]) (by simp [hp]) hk] at hv; cases hv
    | true => rw [next_bits hp hk] at hv; cases hv
  | ready =>
    cases hk : s.oSck with
    | false => rw [next_rise (by simp [hp]) (by simp [hp]) hk] at hv; cases hv
    | true => rw [next_ready hp hk]; exact ⟨rfl, rfl, rfl⟩
  | holding => rw [next_holding hp (h.clock (Or.inl hp))] at hv; cases hv
  | stop => rw [next_stop hp (h.clock (Or.inr (Or.inl hp)))] at hv; cases hv
  | stopB => rw [next_stopB hp (h.clock (Or.inr (Or.inr hp)))] at hv; cases hv

theorem sampled_zero (hm : s.oMod = 0) (dat : BitVec 4) :
    (s.sampled dat).getLsbD 0 = dat.getLsbD 1 := by
  have h₁ : (0 : BitVec 2).getLsbD 1 = false := rfl
  simp only [State.sampled, hm, h₁, Bool.false_eq_true, if_false, BitVec.getLsbD_append]
  simp

end S6Soc.LlQspi
