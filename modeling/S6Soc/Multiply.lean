import Mathlib
import S6Soc.Clocked
import S6Soc.CpuOps

/-! The arithmetic unit with each of its four multipliers, and the products they deliver. -/
namespace S6Soc.CpuOps
open Clocked

/-- One arm of the `generate` on `IMPLEMENT_MPY`: its registers, and what it gives the rest of
the unit. -/
structure Multiplier (τ : Type) where
  implementMpy : ℕ
  init : τ → Prop
  step : τ → Input → τ
  mpyResult : τ → Input → BitVec 64
  mpybusy : τ → Bool
  mpydone : τ → Bool
  mpyhi : τ → Bool

def Input.thisIsAMultiplyOp (i : Input) : Bool := i.iCe && isMultiply i.iOp

/-- An operand as one of 64 bits, signed if `i_op[0]` is set. -/
def extended (signed : Bool) (x : BitVec 32) : BitVec 64 :=
  BitVec.fill 32 (x.getLsbD 31 && signed) ++ x

/-- `IMPLEMENT_MPY = 1` has no registers. -/
def mpy1 : Multiplier Unit where
  implementMpy := 1
  init _ := True
  step _ _ := ()
  mpyResult _ i := extended (i.iOp.getLsbD 0) i.iA * extended (i.iOp.getLsbD 0) i.iB
  mpybusy _ := false
  mpydone _ := false
  mpyhi _ := false

structure Mpy2 where
  rMpyAInput : BitVec 64
  rMpyBInput : BitVec 64
  mpypipe : Bool
  mpyhi : Bool

def mpy2 : Multiplier Mpy2 where
  implementMpy := 2
  init s := s.mpypipe = false
  step s i :=
    { rMpyAInput := extended (i.iOp.getLsbD 0) i.iA
      rMpyBInput := extended (i.iOp.getLsbD 0) i.iB
      mpypipe := !i.iRst && i.thisIsAMultiplyOp
      mpyhi := if i.thisIsAMultiplyOp then i.iOp.getLsbD 1 else s.mpyhi }
  mpyResult s _ := s.rMpyAInput * s.rMpyBInput
  mpybusy _ := false
  mpydone s := s.mpypipe
  mpyhi := Mpy2.mpyhi

structure Mpy3 where
  rSmpyResult : BitVec 64
  rUmpyResult : BitVec 64
  rMpyAInput : BitVec 32
  rMpyBInput : BitVec 32
  mpypipe : BitVec 2
  rSgn : BitVec 2
  mpyhi : Bool

def mpy3 : Multiplier Mpy3 where
  implementMpy := 3
  init s := s.mpypipe = 0
  step s i :=
    { rSmpyResult := s.rMpyAInput.signExtend 64 * s.rMpyBInput.signExtend 64
      rUmpyResult := s.rMpyAInput.setWidth 64 * s.rMpyBInput.setWidth 64
      rMpyAInput := i.iA
      rMpyBInput := i.iB
      mpypipe := if i.iRst then 0
        else s.mpypipe.extractLsb' 0 1 ++ BitVec.ofBool i.thisIsAMultiplyOp
      rSgn := s.rSgn.extractLsb' 0 1 ++ BitVec.ofBool (i.iOp.getLsbD 0)
      mpyhi := if i.thisIsAMultiplyOp then i.iOp.getLsbD 1 else s.mpyhi }
  mpyResult s _ := if s.rSgn.getLsbD 1 then s.rSmpyResult else s.rUmpyResult
  mpybusy s := s.mpypipe.getLsbD 0
  mpydone s := s.mpypipe.getLsbD 1
  mpyhi := Mpy3.mpyhi

/-- The registers that `IMPLEMENT_MPY = 4` adds. -/
structure Mpy4 where
  rMpyResult : BitVec 64
  rMpyAInput : BitVec 32
  rMpyBInput : BitVec 32
  rMpySigned : Bool
  mpypipe : BitVec 3
  mpyhi : Bool
  ppF : BitVec 32
  ppL : BitVec 32
  ppOi : BitVec 33
  ppS : BitVec 33

def mpy4 : Multiplier Mpy4 where
  implementMpy := 4
  init s := s.mpypipe = 0
  step s i :=
    { mpypipe := if i.iRst then 0
        else s.mpypipe.extractLsb' 0 2 ++ BitVec.ofBool i.thisIsAMultiplyOp
      rMpyAInput := mpyInput (i.iOp.getLsbD 0) i.iA
      rMpyBInput := mpyInput (i.iOp.getLsbD 0) i.iB
      rMpySigned := i.iOp.getLsbD 0
      mpyhi := if i.thisIsAMultiplyOp then i.iOp.getLsbD 1 else s.mpyhi
      ppF := State.high s.rMpyAInput 32 * State.high s.rMpyBInput 32
      ppOi := State.high s.rMpyAInput 33 * State.low s.rMpyBInput 33 +
        State.low s.rMpyAInput 33 * State.high s.rMpyBInput 33
      ppL := State.low s.rMpyAInput 32 * State.low s.rMpyBInput 32
      ppS := if s.rMpySigned then
          0x080000000 - (s.rMpyAInput.setWidth 33 + s.rMpyBInput.setWidth 33)
        else 0
      rMpyResult :=
        ((s.ppL.extractLsb' 16 16).setWidth 48 + s.ppOi.setWidth 48 +
          (s.ppS ++ (0 : BitVec 15)) + (s.ppF ++ (0 : BitVec 16))) ++ s.ppL.extractLsb' 0 16 }
  mpyResult s _ := s.rMpyResult
  mpybusy s := s.mpypipe.getLsbD 0 || s.mpypipe.getLsbD 1
  mpydone s := s.mpypipe.getLsbD 2
  mpyhi := Mpy4.mpyhi

/-- The unit around a multiplier. -/
structure Alu (τ : Type) where
  setOvfl : Bool
  keepSgnOnOvfl : Bool
  c : Bool
  preSign : Bool
  oC : BitVec 32
  oValid : Bool
  rBusy : Bool
  multiplier : τ

variable {τ : Type}

def Alu.step (M : Multiplier τ) (s : Alu τ) (i : Input) : Alu τ where
  setOvfl :=
    if i.iCe then
      (i.iOp == 0 && signsDiffer i.iA i.iB) || (i.iOp == 2 && !signsDiffer i.iA i.iB) ||
        i.iOp == 6 || i.iOp == 5
    else s.setOvfl
  keepSgnOnOvfl :=
    if i.iCe then
      (i.iOp == 0 && signsDiffer i.iA i.iB) || (i.iOp == 2 && !signsDiffer i.iA i.iB)
    else s.keepSgnOnOvfl
  c := if i.iCe then (result i.iOp i.iA i.iB (M.mpyResult s.multiplier i)).1 else s.c
  preSign := if i.iCe then i.iA.getLsbD 31 else s.preSign
  oC :=
    if i.iCe then (result i.iOp i.iA i.iB (M.mpyResult s.multiplier i)).2
    else if M.mpyhi s.multiplier then (M.mpyResult s.multiplier i).extractLsb' 32 32
    else (M.mpyResult s.multiplier i).setWidth 32
  oValid :=
    if i.iRst then false
    else if M.implementMpy ≤ 1 then i.iCe
    else (i.iCe && !i.thisIsAMultiplyOp) || M.mpydone s.multiplier
  rBusy := !i.iRst && ((decide (1 < M.implementMpy) && i.thisIsAMultiplyOp) ||
    M.mpybusy s.multiplier)
  multiplier := M.step s.multiplier i

/-- The unit in use: no reset, and nothing is begun while it is busy. -/
def alu (M : Multiplier τ) : System (Alu τ) Input where
  init s := M.init s.multiplier ∧ s.oValid = false ∧ s.rBusy = false
  allowed s i := i.iRst = false ∧ (i.iCe → s.rBusy = false)
  next := Alu.step M

/-- The processor's unit is the one with the fourth multiplier. -/
def State.alu (s : State) : Alu Mpy4 where
  setOvfl := s.setOvfl
  keepSgnOnOvfl := s.keepSgnOnOvfl
  c := s.c
  preSign := s.preSign
  oC := s.oC
  oValid := s.oValid
  rBusy := s.rBusy
  multiplier := ⟨s.rMpyResult, s.rMpyAInput, s.rMpyBInput, s.rMpySigned, s.mpypipe, s.mpyhi,
    s.ppF, s.ppL, s.ppOi, s.ppS⟩

theorem alu_step (s : State) (i : Input) : (CpuOps.step s i).alu = s.alu.step mpy4 i := by
  obtain ⟨rst, ce, op, a, b⟩ := i
  cases rst <;> cases ce <;> cases h : isMultiply op <;>
    simp [State.alu, CpuOps.step, Alu.step, mpy4, Input.thisIsAMultiplyOp, h, State.mpydone,
      State.mpybusy]

inductive MultiplyOp
  | mpyuhi | mpyshi | mpy
  deriving DecidableEq

def MultiplyOp.code : MultiplyOp → BitVec 4
  | .mpyuhi => 10
  | .mpyshi => 11
  | .mpy => 12

/-- An operand, taken as signed or not. -/
def value (signed : Bool) (x : BitVec 32) : ℤ := if signed then x.toInt else x.toNat

def product (signed : Bool) (a b : BitVec 32) : BitVec 64 :=
  BitVec.ofInt 64 (value signed a * value signed b)

/-- The word of the product that an operation asks for. -/
def MultiplyOp.word (o : MultiplyOp) (a b : BitVec 32) : BitVec 32 :=
  match o with
  | .mpyuhi => (product false a b).extractLsb' 32 32
  | .mpyshi => (product true a b).extractLsb' 32 32
  | .mpy => (product false a b).setWidth 32

/-- A multiplication keeps the unit busy until, `n` clocks after it began, the result is valid
and is the word asked for. -/
def Delivers (M : Multiplier τ) (n : ℕ) : Prop :=
  ∀ s i, (alu M).Reachable s → (alu M).allowed s i →
    ∀ o : MultiplyOp, i.iCe → i.iOp = o.code → ∀ is t, (alu M).Run (s.step M i) is t →
      (is.length + 1 < n → t.oValid = false ∧ t.rBusy) ∧
      (is.length + 1 = n → t.oValid ∧ t.rBusy = false ∧ t.oC = o.word i.iA i.iB)

variable {a b x : BitVec 32} {p q : BitVec 64} {signed : Bool}

theorem mul_eq_product (hp : p.toInt = value signed a) (hq : q.toInt = value signed b) :
    p * q = product signed a b := by
  rw [product, ← hp, ← hq, ← BitVec.toInt_inj, BitVec.toInt_mul, BitVec.toInt_ofInt]

theorem toInt_extended : (extended signed x).toInt = value signed x := by
  have hx := x.isLt
  rw [extended, BitVec.toInt_append, BitVec.fill_toInt, value, ← BitVec.msb_eq_getLsbD_last,
    BitVec.toInt_eq_msb_cond]
  cases signed <;> cases x.msb <;> simp
  omega

theorem toInt_unsigned : (x.setWidth 64).toInt = value false x := by
  have hx := x.isLt
  rw [BitVec.toInt_setWidth, Int.bmod_eq_of_le (by omega) (by omega)]
  rfl

theorem toInt_signed : (x.signExtend 64).toInt = value true x :=
  BitVec.toInt_signExtend_of_le (by decide)

/-- The sign bit, inverted, moves a signed word by `2 ^ 31`. -/
theorem toNat_mpyInput (signed : Bool) (x : BitVec 32) : ((mpyInput signed x).toNat : ℤ) =
    value signed x + if signed then 2 ^ 31 else 0 := by
  cases signed with
  | false => simp [mpyInput, value]
  | true =>
    obtain ⟨m, y, rfl⟩ : ∃ m, ∃ y : BitVec 31, x = BitVec.cons m y :=
      ⟨x.msb, x.setWidth 31, (BitVec.cons_msb_setWidth x).symm⟩
    have hy := y.isLt
    have hf : mpyInput true (BitVec.cons m y) = BitVec.cons (!m) y := by
      rw [mpyInput, if_pos rfl, show (0x80000000 : BitVec 32) = BitVec.cons true 0#31 from rfl,
        BitVec.cons_xor_cons, BitVec.xor_zero, Bool.xor_true]
    rw [hf, value, if_pos rfl, if_pos rfl, BitVec.toInt_eq_msb_cond, BitVec.msb_cons,
      BitVec.toNat_cons', BitVec.toNat_cons', Nat.shiftLeft_eq, Nat.shiftLeft_eq]
    cases m <;> simp <;> omega

/-- What the third clock adds up, of operands whose sign bits may be inverted. -/
def partialSum (a b : BitVec 32) (ppS : BitVec 33) : BitVec 64 :=
  let ppL := State.low a 32 * State.low b 32
  let ppOi := State.high a 33 * State.low b 33 + State.low a 33 * State.high b 33
  let ppF := State.high a 32 * State.high b 32
  ((ppL.extractLsb' 16 16).setWidth 48 + ppOi.setWidth 48 + (ppS ++ (0 : BitVec 15)) +
    (ppF ++ (0 : BitVec 16))) ++ ppL.extractLsb' 0 16

/-- What the inverted sign bits have to be corrected by. -/
def signCorrection (signed : Bool) (a b : BitVec 32) : BitVec 33 :=
  if signed then 0x080000000 - (a.setWidth 33 + b.setWidth 33) else 0

theorem half_mul_le {x y : ℕ} (hx : x < 2 ^ 16) (hy : y < 2 ^ 16) :
    x * y ≤ (2 ^ 16 - 1) * (2 ^ 16 - 1) :=
  Nat.mul_le_mul (by omega) (by omega)

theorem toNat_high (x : BitVec 32) {w : ℕ} (hw : 16 ≤ w) :
    (State.high x w).toNat = x.toNat / 2 ^ 16 := by
  have hx := x.isLt
  rw [State.high, BitVec.toNat_setWidth, BitVec.extractLsb'_toNat, Nat.shiftRight_eq_div_pow,
    Nat.mod_eq_of_lt (show x.toNat / 2 ^ 16 < 2 ^ 16 by omega)]
  exact Nat.mod_eq_of_lt ((show x.toNat / 2 ^ 16 < 2 ^ 16 by omega).trans_le
    (Nat.pow_le_pow_right two_pos hw))

theorem toNat_low (x : BitVec 32) {w : ℕ} (hw : 16 ≤ w) :
    (State.low x w).toNat = x.toNat % 2 ^ 16 := by
  rw [State.low, BitVec.toNat_setWidth, BitVec.extractLsb'_toNat, Nat.shiftRight_zero]
  exact Nat.mod_eq_of_lt ((Nat.mod_lt _ (by decide)).trans_le (Nat.pow_le_pow_right two_pos hw))

theorem toNat_partialSum (s : BitVec 33) : (partialSum a b s).toNat =
    (a.toNat * b.toNat + s.toNat * 2 ^ 31) % 2 ^ 64 := by
  have ha := a.isLt
  have hb := b.isLt
  have hs := s.isLt
  set ah := a.toNat / 2 ^ 16 with hah
  set al := a.toNat % 2 ^ 16 with hal
  set bh := b.toNat / 2 ^ 16 with hbh
  set bl := b.toNat % 2 ^ 16 with hbl
  have hp := half_mul_le (x := ah) (y := bh) (by omega) (by omega)
  have hq := half_mul_le (x := ah) (y := bl) (by omega) (by omega)
  have hr := half_mul_le (x := al) (y := bh) (by omega) (by omega)
  have ht := half_mul_le (x := al) (y := bl) (by omega) (by omega)
  have hprod : a.toNat * b.toNat = ah * bh * 2 ^ 32 + (ah * bl + al * bh) * 2 ^ 16 + al * bl := by
    calc a.toNat * b.toNat = (2 ^ 16 * ah + al) * (2 ^ 16 * bh + bl) := by
          rw [Nat.div_add_mod, Nat.div_add_mod]
      _ = ah * bh * 2 ^ 32 + (ah * bl + al * bh) * 2 ^ 16 + al * bl := by ring
  have happ {v w : ℕ} (x : BitVec v) : (x ++ (0 : BitVec w)).toNat = x.toNat * 2 ^ w := by
    rw [BitVec.toNat_append, Nat.shiftLeft_eq]
    simp
  rw [hprod, partialSum]
  simp only [BitVec.toNat_append, BitVec.toNat_add, happ, BitVec.toNat_setWidth,
    BitVec.extractLsb'_toNat, BitVec.toNat_mul, toNat_high _ (show 16 ≤ 32 by decide),
    toNat_high _ (show 16 ≤ 33 by decide), toNat_low _ (show 16 ≤ 32 by decide),
    toNat_low _ (show 16 ≤ 33 by decide), ← hah, ← hal, ← hbh, ← hbl,
    Nat.shiftRight_eq_div_pow]
  rw [← Nat.shiftLeft_add_eq_or_of_lt (Nat.mod_lt _ (by decide)), Nat.shiftLeft_eq]
  generalize ah * bh = p at *
  generalize ah * bl = q at *
  generalize al * bh = r at *
  generalize al * bl = t at *
  omega

theorem partialSum_eq : partialSum (mpyInput signed a) (mpyInput signed b)
    (signCorrection signed (mpyInput signed a) (mpyInput signed b)) = product signed a b := by
  have ha := toNat_mpyInput signed a
  have hb := toNat_mpyInput signed b
  have hal := (mpyInput signed a).isLt
  have hbl := (mpyInput signed b).isLt
  refine BitVec.eq_of_toNat_eq ?_
  rw [toNat_partialSum, product, BitVec.toNat_ofInt]
  generalize (mpyInput signed a) = x at *
  generalize (mpyInput signed b) = y at *
  cases signed with
  | false =>
    rw [if_neg (by decide), Int.add_zero] at ha hb
    rw [← ha, ← hb, signCorrection, if_neg (by decide)]
    simp
    omega
  | true =>
    rw [if_pos rfl] at ha hb
    have hva : value true a = x.toNat - 2 ^ 31 := by omega
    have hvb : value true b = y.toNat - 2 ^ 31 := by omega
    have hs : (signCorrection true x y).toNat =
        (2 ^ 33 - (x.toNat + y.toNat) % 2 ^ 33 + 2 ^ 31) % 2 ^ 33 := by
      rw [signCorrection, if_pos rfl, BitVec.toNat_sub, BitVec.toNat_add, BitVec.toNat_setWidth,
        BitVec.toNat_setWidth]
      simp
    have hprod : value true a * value true b =
        ((x.toNat * y.toNat : ℕ) : ℤ) - 2 ^ 31 * (x.toNat + y.toNat) + 2 ^ 62 := by
      rw [hva, hvb]
      push_cast
      ring
    rw [hprod, hs]
    generalize x.toNat * y.toNat = p
    omega

theorem word_eq (o : MultiplyOp) : o.word a b =
    if o.code.getLsbD 1 then (product (o.code.getLsbD 0) a b).extractLsb' 32 32
    else (product (o.code.getLsbD 0) a b).setWidth 32 := by
  cases o <;> rfl

/-- A multiplier with registers: what they hold `k` clocks after an operation began. -/
structure Pipelined (M : Multiplier τ) (quiet : τ → Prop)
    (holds : MultiplyOp → BitVec 32 → BitVec 32 → ℕ → τ → Prop) : Prop where
  clocks : 1 < M.implementMpy
  init {m} : M.init m → quiet m
  still {m} : quiet m → M.mpybusy m = false ∧ M.mpydone m = false
  rest {m i} : quiet m → i.iRst = false → i.thisIsAMultiplyOp = false → quiet (M.step m i)
  start {m i o} : quiet m → i.iRst = false → i.iCe → i.iOp = o.code →
    holds o i.iA i.iB 1 (M.step m i)
  next {m i o a b k} : holds o a b k m → k + 1 < M.implementMpy → i.iRst = false →
    i.iCe = false → holds o a b (k + 1) (M.step m i)
  finish {m i o a b k} : holds o a b k m → k + 1 = M.implementMpy → i.iRst = false →
    i.iCe = false → quiet (M.step m i)
  busy {m o a b k} : holds o a b k m → M.mpybusy m = decide (k + 1 < M.implementMpy)
  done {m o a b k} : holds o a b k m → M.mpydone m = decide (k + 1 = M.implementMpy)
  result {m i o a b k} : holds o a b k m → k + 1 = M.implementMpy →
    M.mpyResult m i = product (o.code.getLsbD 0) a b ∧ M.mpyhi m = o.code.getLsbD 1

section

variable {M : Multiplier τ} {quiet : τ → Prop}
  {holds : MultiplyOp → BitVec 32 → BitVec 32 → ℕ → τ → Prop} {s t : Alu τ} {i : Input}
  {o : MultiplyOp} {k : ℕ}

/-- Busy with an operation, `k` clocks after it began. -/
structure Waiting (M : Multiplier τ)
    (holds : MultiplyOp → BitVec 32 → BitVec 32 → ℕ → τ → Prop) (o : MultiplyOp)
    (a b : BitVec 32) (k : ℕ) (s : Alu τ) : Prop where
  lt : k < M.implementMpy
  rBusy : s.rBusy
  oValid : s.oValid = false
  holds : holds o a b k s.multiplier

theorem isMultiply_code : isMultiply o.code := by
  cases o <;> rfl

theorem thisIsAMultiplyOp_of_code (hce : i.iCe)
    (hop : i.iOp = o.code) : i.thisIsAMultiplyOp = true := by
  rw [Input.thisIsAMultiplyOp, hce, hop, isMultiply_code]
  rfl

theorem thisIsAMultiplyOp_of_not_ce (hce : i.iCe = false) :
    i.thisIsAMultiplyOp = false := by
  rw [Input.thisIsAMultiplyOp, hce]
  rfl

/-- Every multiply operation is one of the three. -/
theorem exists_code {op : BitVec 4} (h : isMultiply op) : ∃ o : MultiplyOp, op = o.code := by
  have hop : op = 10 ∨ op = 11 ∨ op = 12 := by
    revert op
    decide
  rcases hop with rfl | rfl | rfl
  · exact ⟨.mpyuhi, rfl⟩
  · exact ⟨.mpyshi, rfl⟩
  · exact ⟨.mpy, rfl⟩

theorem Pipelined.begins (h : Pipelined M quiet holds) (hq : quiet s.multiplier)
    (hr : i.iRst = false) (hce : i.iCe) (hop : i.iOp = o.code) :
    Waiting M holds o i.iA i.iB 1 (s.step M i) := by
  have hm := thisIsAMultiplyOp_of_code hce hop
  have hc := h.clocks
  refine ⟨hc, ?_, ?_, h.start hq hr hce hop⟩
  · simp [Alu.step, hr, hm, hc]
  · simp [Alu.step, hr, hm, hc.not_ge, (h.still hq).2]

theorem Pipelined.waits (h : Pipelined M quiet holds) (hw : Waiting M holds o a b k s)
    (hk : k + 1 < M.implementMpy) (hr : i.iRst = false) (hce : i.iCe = false) :
    Waiting M holds o a b (k + 1) (s.step M i) := by
  refine ⟨hk, ?_, ?_, h.next hw.holds hk hr hce⟩
  · simp [Alu.step, hr, h.busy hw.holds, hk]
  · simp [Alu.step, hr, hce, h.done hw.holds, hk.ne]

theorem Pipelined.delivers_last (h : Pipelined M quiet holds) (hw : Waiting M holds o a b k s)
    (hk : k + 1 = M.implementMpy) (hr : i.iRst = false) (hce : i.iCe = false) :
    (s.step M i).oValid ∧ (s.step M i).rBusy = false ∧ (s.step M i).oC = o.word a b ∧
      quiet (s.step M i).multiplier := by
  have hc := h.clocks
  have hm := thisIsAMultiplyOp_of_not_ce hce
  obtain ⟨hres, hhi⟩ := h.result (i := i) hw.holds hk
  refine ⟨?_, ?_, ?_, h.finish hw.holds hk hr hce⟩
  · simp [Alu.step, hr, hce, h.done hw.holds, hk, hc.not_ge]
  · simp [Alu.step, hr, hm, h.busy hw.holds, hk.not_lt]
  · rw [word_eq, Alu.step, hce, hres, hhi]
    rfl

/-- Idle, or busy with one operation. -/
def Orderly (M : Multiplier τ) (quiet : τ → Prop)
    (holds : MultiplyOp → BitVec 32 → BitVec 32 → ℕ → τ → Prop) (s : Alu τ) : Prop :=
  quiet s.multiplier ∧ s.rBusy = false ∨ ∃ o a b k, Waiting M holds o a b k s

theorem Pipelined.orderly_step (h : Pipelined M quiet holds) (hs : Orderly M quiet holds s)
    (hi : (alu M).allowed s i) : Orderly M quiet holds (s.step M i) := by
  obtain ⟨hr, hf⟩ := hi
  obtain ⟨hq, hb⟩ | ⟨o, a, b, k, hw⟩ := hs
  · cases hm : i.thisIsAMultiplyOp with
    | true =>
      rw [Input.thisIsAMultiplyOp, Bool.and_eq_true] at hm
      obtain ⟨o, ho⟩ := exists_code hm.2
      exact .inr ⟨o, _, _, 1, h.begins hq hr hm.1 ho⟩
    | false =>
      refine .inl ⟨h.rest hq hr hm, ?_⟩
      simp [Alu.step, hm, (h.still hq).1]
  · have hce : i.iCe = false := by
      by_contra hce
      rw [Bool.not_eq_false] at hce
      exact absurd hw.rBusy (by simp [hf hce])
    obtain hk | hk : k + 1 < M.implementMpy ∨ k + 1 = M.implementMpy := by
      have := hw.lt
      omega
    · exact .inr ⟨o, a, b, k + 1, h.waits hw hk hr hce⟩
    · obtain ⟨-, hb, -, hq⟩ := h.delivers_last hw hk hr hce
      exact .inl ⟨hq, hb⟩

theorem Pipelined.delivers (h : Pipelined M quiet holds) : Delivers M M.implementMpy := by
  intro s i hs hi o hce hop is t ht
  have hc := h.clocks
  have hquiet : quiet s.multiplier := by
    have ho : Orderly M quiet holds s :=
      hs.invariant (fun s hs => .inl ⟨h.init hs.1, hs.2.2⟩) fun _ _ => h.orderly_step
    obtain ⟨hq, -⟩ | ⟨_, _, _, _, hw⟩ := ho
    · exact hq
    · exact absurd hw.rBusy (by simp [hi.2 hce])
  have hrun : (is.length + 1 < M.implementMpy → Waiting M holds o i.iA i.iB (is.length + 1) t) ∧
      (is.length + 1 = M.implementMpy →
        t.oValid ∧ t.rBusy = false ∧ t.oC = o.word i.iA i.iB) := by
    induction ht with
    | nil =>
      exact ⟨fun _ => h.begins hquiet hi.1 hce hop, fun h1 => absurd h1 (by simp; omega)⟩
    | @snoc js u j _ hj ih =>
      rw [List.length_append, List.length_singleton]
      have idle (hw : Waiting M holds o i.iA i.iB (js.length + 1) u) : j.iCe = false := by
        by_contra hjce
        rw [Bool.not_eq_false] at hjce
        exact absurd hw.rBusy (by simp [hj.2 hjce])
      refine ⟨fun hk => ?_, fun hk => ?_⟩
      · have hw := ih.1 (by omega)
        exact h.waits hw hk hj.1 (idle hw)
      · have hw := ih.1 (by omega)
        obtain ⟨hv, hb, ho, -⟩ := h.delivers_last hw hk hj.1 (idle hw)
        exact ⟨hv, hb, ho⟩
  exact ⟨fun hk => ⟨(hrun.1 hk).oValid, (hrun.1 hk).rBusy⟩, hrun.2⟩

end

/-- The product is that of the latched operands. -/
def Holds2 (o : MultiplyOp) (a b : BitVec 32) (k : ℕ) (m : Mpy2) : Prop :=
  k = 1 ∧ m.mpypipe ∧ m.mpyhi = o.code.getLsbD 1 ∧
    m.rMpyAInput = extended (o.code.getLsbD 0) a ∧ m.rMpyBInput = extended (o.code.getLsbD 0) b

theorem pipelined_mpy2 : Pipelined mpy2 (fun m => m.mpypipe = false) Holds2 where
  clocks := by decide
  init h := h
  still h := ⟨rfl, h⟩
  rest _ hr hm := by simp [mpy2, hr, hm]
  start _ hr hce hop := by
    have hm := thisIsAMultiplyOp_of_code hce hop
    refine ⟨rfl, ?_, ?_, ?_, ?_⟩ <;> simp [mpy2, hr, hm, hop]
  next h hk := by
    obtain ⟨rfl, -⟩ := h
    exact absurd hk (by decide)
  finish _ _ hr hce := by simp [mpy2, hr, thisIsAMultiplyOp_of_not_ce hce]
  busy h := by
    obtain ⟨rfl, -⟩ := h
    rfl
  done h := by
    obtain ⟨rfl, hp, -⟩ := h
    exact hp
  result h _ := by
    obtain ⟨rfl, -, hh, ha, hb⟩ := h
    refine ⟨?_, hh⟩
    change _ * _ = _
    rw [ha, hb]
    exact mul_eq_product toInt_extended toInt_extended

/-- Both products, the signed and the unsigned one, are of the latched operands. -/
def Holds3 (o : MultiplyOp) (a b : BitVec 32) (k : ℕ) (m : Mpy3) : Prop :=
  m.mpyhi = o.code.getLsbD 1 ∧
    (k = 1 ∧ m.mpypipe = 1 ∧ m.rMpyAInput = a ∧ m.rMpyBInput = b ∧
        m.rSgn.getLsbD 0 = o.code.getLsbD 0 ∨
      k = 2 ∧ m.mpypipe = 2 ∧ m.rSmpyResult = product true a b ∧
        m.rUmpyResult = product false a b ∧ m.rSgn.getLsbD 1 = o.code.getLsbD 0)

theorem shifted_in (x : BitVec 2) (v : Bool) :
    (x.extractLsb' 0 1 ++ BitVec.ofBool v).getLsbD 0 = v ∧
      (x.extractLsb' 0 1 ++ BitVec.ofBool v).getLsbD 1 = x.getLsbD 0 := by
  rw [BitVec.getLsbD_append, BitVec.getLsbD_append]
  simp

theorem pipelined_mpy3 : Pipelined mpy3 (fun m => m.mpypipe = 0) Holds3 where
  clocks := by decide
  init h := h
  still h := by simp [mpy3, h]
  rest h hr hm := by simp [mpy3, h, hr, hm]
  start h hr hce hop := by
    have hm := thisIsAMultiplyOp_of_code hce hop
    refine ⟨?_, .inl ⟨rfl, ?_, rfl, rfl, (shifted_in _ _).1.trans (by rw [hop])⟩⟩ <;>
      simp [mpy3, h, hr, hm, hop]
  next h hk hr hce := by
    have hm := thisIsAMultiplyOp_of_not_ce hce
    obtain ⟨hh, ⟨rfl, hp, rfl, rfl, hs⟩ | ⟨rfl, -⟩⟩ := h
    · refine ⟨by simp [mpy3, hm, hh], .inr ⟨rfl, ?_, ?_, ?_, ?_⟩⟩
      · simp [mpy3, hp, hr, hm]
      · exact mul_eq_product toInt_signed toInt_signed
      · exact mul_eq_product toInt_unsigned toInt_unsigned
      · exact (shifted_in _ _).2.trans hs
    · exact absurd hk (by decide)
  finish h hk hr hce := by
    have hm := thisIsAMultiplyOp_of_not_ce hce
    obtain ⟨-, ⟨rfl, -⟩ | ⟨rfl, hp, -⟩⟩ := h
    · exact absurd hk (by decide)
    · simp [mpy3, hp, hr, hm]
  busy h := by
    obtain ⟨-, ⟨rfl, hp, -⟩ | ⟨rfl, hp, -⟩⟩ := h <;> simp [mpy3, hp]
  done h := by
    obtain ⟨-, ⟨rfl, hp, -⟩ | ⟨rfl, hp, -⟩⟩ := h <;> simp [mpy3, hp]
  result h hk := by
    obtain ⟨hh, ⟨rfl, -⟩ | ⟨rfl, -, hs, hu, hsgn⟩⟩ := h
    · exact absurd hk (by decide)
    · refine ⟨?_, hh⟩
      simp only [mpy3, hsgn, hs, hu]
      split <;> simp_all

/-- The operands, then their partial products, then the sum. -/
def Holds4 (o : MultiplyOp) (a b : BitVec 32) (k : ℕ) (m : Mpy4) : Prop :=
  m.mpyhi = o.code.getLsbD 1 ∧
    (k = 1 ∧ m.mpypipe = 1 ∧ m.rMpyAInput = mpyInput (o.code.getLsbD 0) a ∧
        m.rMpyBInput = mpyInput (o.code.getLsbD 0) b ∧ m.rMpySigned = o.code.getLsbD 0 ∨
      k = 2 ∧ m.mpypipe = 2 ∧ (mpy4.step m ⟨false, false, 0, 0, 0⟩).rMpyResult =
        product (o.code.getLsbD 0) a b ∨
      k = 3 ∧ m.mpypipe = 4 ∧ m.rMpyResult = product (o.code.getLsbD 0) a b)

theorem pipelined_mpy4 : Pipelined mpy4 (fun m => m.mpypipe = 0) Holds4 where
  clocks := by decide
  init h := h
  still h := by simp [mpy4, h]
  rest h hr hm := by simp [mpy4, h, hr, hm]
  start h hr hce hop := by
    have hm := thisIsAMultiplyOp_of_code hce hop
    refine ⟨?_, .inl ⟨rfl, ?_, ?_, ?_, ?_⟩⟩ <;> simp [mpy4, h, hr, hm, hop]
  next h hk hr hce := by
    have hm := thisIsAMultiplyOp_of_not_ce hce
    obtain ⟨hh, ⟨rfl, hp, ha, hb, hs⟩ | ⟨rfl, hp, hsum⟩ | ⟨rfl, -⟩⟩ := h
    · refine ⟨by simp [mpy4, hm, hh], .inr (.inl ⟨rfl, ?_, ?_⟩)⟩
      · simp [mpy4, hp, hr, hm]
      · rw [← partialSum_eq, ← ha, ← hb, ← hs]
        rfl
    · refine ⟨by simp [mpy4, hm, hh], .inr (.inr ⟨rfl, ?_, hsum⟩)⟩
      simp [mpy4, hp, hr, hm]
    · exact absurd hk (by decide)
  finish h hk hr hce := by
    have hm := thisIsAMultiplyOp_of_not_ce hce
    obtain ⟨-, ⟨rfl, -⟩ | ⟨rfl, -⟩ | ⟨rfl, hp, -⟩⟩ := h
    · exact absurd hk (by decide)
    · exact absurd hk (by decide)
    · simp [mpy4, hp, hr, hm]
  busy h := by
    obtain ⟨-, ⟨rfl, hp, -⟩ | ⟨rfl, hp, -⟩ | ⟨rfl, hp, -⟩⟩ := h <;> simp [mpy4, hp]
  done h := by
    obtain ⟨-, ⟨rfl, hp, -⟩ | ⟨rfl, hp, -⟩ | ⟨rfl, hp, -⟩⟩ := h <;> simp [mpy4, hp]
  result h hk := by
    obtain ⟨hh, ⟨rfl, -⟩ | ⟨rfl, -⟩ | ⟨rfl, -, hsum⟩⟩ := h
    · exact absurd hk (by decide)
    · exact absurd hk (by decide)
    · exact ⟨hsum, hh⟩

/-- The first multiplier is done in the clock it begins. -/
theorem delivers_mpy1 : Delivers mpy1 1 := by
  intro s i _ hi o hce hop is t ht
  cases ht with
  | nil =>
    refine ⟨fun h => absurd h (by decide), fun _ => ⟨?_, ?_, ?_⟩⟩
    · simp [Alu.step, hi.1, mpy1, hce]
    · simp [Alu.step, mpy1]
    · have hprod : mpy1.mpyResult s.multiplier i =
          product (o.code.getLsbD 0) i.iA i.iB := by
        rw [← hop]
        exact mul_eq_product toInt_extended toInt_extended
      simp only [Alu.step, hce, if_true, hprod, hop]
      rw [word_eq]
      cases o <;> rfl
  | snoc _ _ =>
    rw [List.length_append, List.length_singleton]
    exact ⟨fun h => absurd h (by omega), fun h => absurd h (by omega)⟩

/-- All four multipliers deliver the same words. -/
theorem multipliers_deliver :
    Delivers mpy1 1 ∧ Delivers mpy2 2 ∧ Delivers mpy3 3 ∧ Delivers mpy4 4 :=
  ⟨delivers_mpy1, pipelined_mpy2.delivers, pipelined_mpy3.delivers, pipelined_mpy4.delivers⟩

/-- A multiplier that holds nothing, of a unit at rest. -/
def atRest : Alu Mpy4 :=
  ⟨false, false, false, false, 0, false, false, ⟨0, 0, 0, false, 0, false, 0, 0, 0, 0⟩⟩

/-- The high word of `-0x10000 * -0x30000`. -/
def highWord : Input := ⟨false, true, 11, -0x10000, -0x30000⟩

def waiting : Input := ⟨false, false, 0, 0, 0⟩

theorem multipliers_deliver_highWord :
    let t := ([highWord, waiting, waiting, waiting].foldl (Alu.step mpy4) atRest)
    t.oValid = true ∧ t.rBusy = false ∧ t.oC = 3 := by
  have hstart : (alu mpy4).Reachable atRest := System.reachable_init ⟨rfl, rfl, rfl⟩
  have h₁ := System.Run.snoc (M := alu mpy4) (s := atRest.step mpy4 highWord) (i := waiting) .nil
    ⟨rfl, nofun⟩
  have h₂ := System.Run.snoc (i := waiting) h₁ ⟨rfl, nofun⟩
  have h₃ := System.Run.snoc (i := waiting) h₂ ⟨rfl, nofun⟩
  obtain ⟨hv, hb, hc⟩ := (multipliers_deliver.2.2.2 atRest highWord hstart ⟨rfl, fun _ => rfl⟩
    .mpyshi rfl rfl _ _ h₃).2 rfl
  exact ⟨hv, hb, hc.trans (by decide)⟩

end S6Soc.CpuOps
