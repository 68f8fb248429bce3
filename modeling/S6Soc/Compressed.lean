import Mathlib
import S6Soc.IDecode

/-! Compressed instructions: each says, in half a word, what some full word says. -/
namespace S6Soc.IDecode

/-- What an instruction is to the operand stage, which looks at `oDcdB` only for `oRB`. -/
def Decoded.seen (d : Decoded) : Decoded :=
  { d with oDcdB := if d.oRB then d.oDcdB else ⟨false, false, 0⟩ }

/-- The second half of a word, moved to where the first is decoded. -/
def secondHalf (iword : BitVec 32) : BitVec 32 :=
  BitVec.ofBool (iword.getLsbD 31) ++ iword.extractLsb' 0 15 ++ (0 : BitVec 16)

/-- `w_dcdB[3:0]` of a compressed instruction. -/
def halfB (iword : BitVec 32) : BitVec 4 :=
  if !iword.getLsbD 23 && iword.extractLsb' 25 2 == 2 then cpuSpReg else iword.extractLsb' 19 4

/-- An uncompressed instruction that always executes: bit 18 and the bits below it. -/
def full (r : BitVec 4) (op : BitVec 5) (b : Bool) (rest : BitVec 18) : BitVec 32 :=
  BitVec.ofBool false ++ r ++ op ++ (0 : BitVec 3) ++ BitVec.ofBool b ++ rest

/-- `LDI`, whose immediate takes the last bit of the operation and the condition. -/
def fullLdi (r : BitVec 4) (imm : BitVec 23) : BitVec 32 :=
  BitVec.ofBool false ++ r ++ (0xc : BitVec 4) ++ imm

/-- The full word for the compressed instruction in the upper half of `iword`. A move stays in the
register set of the mode, and an address without a register is one from the stack pointer. -/
def expand (iword : BitVec 32) : BitVec 32 :=
  let op := wCisOp iword
  let r := iword.extractLsb' 27 4
  if op = 0x18 then fullLdi r ((wHalfI iword).signExtend 23)
  else if op = 0x0d then
    full r op false (halfB iword ++ BitVec.ofBool false ++ (wHalfI iword).signExtend 13)
  else if wRB iword then full r op true (halfB iword ++ (wHalfI iword).signExtend 14)
  else full r op false ((wHalfI iword).signExtend 18)

variable {g b : Bool} {r : BitVec 4} {op : BitVec 5} {rest : BitVec 18} {imm : BitVec 23}
  {iword word : BitVec 32}

theorem extract_extract {i j n m : Nat} (h : j + m ≤ n) :
    (iword.extractLsb' i n).extractLsb' j m = iword.extractLsb' (i + j) m := by
  apply BitVec.eq_of_getLsbD_eq
  intro k hk
  simp only [BitVec.getLsbD_extractLsb', hk, show j + k < n by omega, decide_true, Bool.true_and,
    Nat.add_assoc]

theorem full_rest {start len : Nat} (h : start + len ≤ 18) :
    (full r op b rest).extractLsb' start len = rest.extractLsb' start len :=
  BitVec.extractLsb'_append_eq_of_add_le h

theorem cis_full : cis (full r op b rest) = false := by
  simp only [cis, full, BitVec.getLsbD_append]
  rfl

theorem wOp_full : wOp (full r op b rest) = op := by
  rw [wOp, full, BitVec.extractLsb'_append_eq_of_le (by decide),
    BitVec.extractLsb'_append_eq_of_le (by decide), BitVec.extractLsb'_append_eq_of_le (by decide)]
  exact BitVec.extractLsb'_append_eq_right

theorem wCisOp_full : wCisOp (full r op b rest) = op := by
  rw [← wOp_eq_wCisOp cis_full, wOp_full]

theorem full_r : (full r op b rest).extractLsb' 27 4 = r := by
  rw [full, BitVec.extractLsb'_append_eq_of_le (by decide),
    BitVec.extractLsb'_append_eq_of_le (by decide), BitVec.extractLsb'_append_eq_of_le (by decide),
    BitVec.extractLsb'_append_eq_of_le (by decide)]
  exact BitVec.extractLsb'_append_eq_right

theorem full_cond : (full r op b rest).extractLsb' 19 3 = 0 := by
  rw [full, BitVec.extractLsb'_append_eq_of_le (by decide),
    BitVec.extractLsb'_append_eq_of_le (by decide)]
  exact BitVec.extractLsb'_append_eq_right

theorem full_b : (full r op b rest).getLsbD 18 = b := by
  simp only [full, BitVec.getLsbD_append]
  simp

theorem full_low {k : Nat} (h : k < 18) : (full r op b rest).getLsbD k = rest.getLsbD k := by
  rw [full, BitVec.getLsbD_append, if_pos h]

theorem cis_fullLdi : cis (fullLdi r imm) = false := by
  simp only [cis, fullLdi, BitVec.getLsbD_append]
  rfl

theorem fullLdi_r : (fullLdi r imm).extractLsb' 27 4 = r := by
  rw [fullLdi, BitVec.extractLsb'_append_eq_of_le (by decide),
    BitVec.extractLsb'_append_eq_of_le (by decide)]
  exact BitVec.extractLsb'_append_eq_right

theorem wLdi_fullLdi : (wCisOp (fullLdi r imm)).extractLsb' 1 4 = 0xc := by
  rw [← wOp_eq_wCisOp cis_fullLdi, wOp, extract_extract (by decide), fullLdi,
    BitVec.extractLsb'_append_eq_of_le (by decide)]
  exact BitVec.extractLsb'_append_eq_right

theorem fullLdi_imm : (fullLdi r imm).extractLsb' 0 23 = imm :=
  BitVec.extractLsb'_append_eq_right

theorem wCisOp_cases (h : cis iword) :
    wCisOp iword = 0x00 ∨ wCisOp iword = 0x01 ∨ wCisOp iword = 0x02 ∨ wCisOp iword = 0x10 ∨
      wCisOp iword = 0x12 ∨ wCisOp iword = 0x13 ∨ wCisOp iword = 0x18 ∨ wCisOp iword = 0x0d := by
  simp only [wCisOp, h]
  grind

theorem special_eq (h : word.extractLsb' 27 4 = iword.extractLsb' 27 4) :
    special word = special iword := by
  have hs (w : BitVec 32) : w.extractLsb' 28 3 = (w.extractLsb' 27 4).extractLsb' 1 3 :=
    (extract_extract (show 1 + 3 ≤ 4 by decide)).symm
  simp only [special, hs, h]

/-- The second register of a compressed instruction, where it has one. -/
theorem wDcdB_half (hc : cis iword) : wDcdB g iword = BitVec.ofBool g ++ halfB iword := by
  simp [wDcdB, halfB, regSet, hc]

theorem signExtend_wHalfI {n : Nat} (h : 8 ≤ n) :
    ((wHalfI iword).signExtend n).signExtend 23 = (wHalfI iword).signExtend 23 := by
  apply BitVec.eq_of_getLsbD_eq
  intro i hi
  simp only [BitVec.getLsbD_signExtend, BitVec.msb_signExtend]
  grind

/-- The fields of a full word that says what a compressed one says. -/
structure Says (g : Bool) (word iword : BitVec 32) : Prop where
  full : cis word = false
  op : wCisOp word = wCisOp iword
  r : word.extractLsb' 27 4 = iword.extractLsb' 27 4
  set : regSet g word 18 = g
  cond : wCond word = 8
  rB : wRB word = wRB iword
  dcdB : wRB iword → wDcdB g word = wDcdB g iword
  imm : wI word = wI iword

theorem wDcdR_eq (hc : cis iword) (hr : word.extractLsb' 27 4 = iword.extractLsb' 27 4)
    (hg : regSet g word 18 = g) : wDcdR g word = wDcdR g iword := by
  simp only [wDcdR, hr, hg]
  simp [regSet, hc]

theorem Says.seen (h : Says g word iword) (hc : cis iword) :
    (decode g word).seen = (decode g iword).seen ∧ illegal word = false ∧
      illegal iword = false := by
  obtain ⟨hf, hop, hr, hset, hcond, hB, hb, hI⟩ := h
  have hs := special_eq hr
  have hR := wDcdR_eq hc hr hset
  have hcond' : wCond iword = 8 := by simp [wCond, hc]
  have hw : wOp word = wCisOp iword := by rw [wOp_eq_wCisOp hf, hop]
  rcases wCisOp_cases hc with h | h | h | h | h | h | h | h <;>
  · simp only [h] at hop hw
    simp [decode, Decoded.seen, illegal, hR, hB, hI, hcond, hcond', wMov, wLdi, wMem, wNoop, wDiv,
      wFpu, wRA, wWR, wWF, wSto, wCmptst, wALU, wBrev, wLdilo, noResult, hc, hf, hop, hw, h, hs]
    try grind

/-- A full word that is no `LDI` says it, if it names the register and the immediate. -/
theorem says_full (hc : cis iword) (hop : wCisOp iword ≠ 0x18)
    (hm : wCisOp iword = 0x0d → b = false ∧ rest.getLsbD 13 = false)
    (hb : wCisOp iword ≠ 0x0d → b = wRB iword)
    (hB : wRB iword → rest.extractLsb' 14 4 = halfB iword)
    (hI : wFullI (full (iword.extractLsb' 27 4) (wCisOp iword) b rest) =
      (wHalfI iword).signExtend 23) :
    Says g (full (iword.extractLsb' 27 4) (wCisOp iword) b rest) iword := by
  have hl : (wCisOp iword).extractLsb' 1 4 ≠ 0xc := by
    rcases wCisOp_cases hc with h | h | h | h | h | h | h | h <;> simp_all
  refine ⟨cis_full, wCisOp_full, full_r, ?_, ?_, ?_, ?_, ?_⟩
  · simp only [regSet, full_b, wMov, wCisOp_full]
    grind
  · simp [wCond, wLdi, cis_full, wCisOp_full, full_cond]
  · simp only [wRB, wMov, wLdi, wMem, cis_full, full_b, wCisOp_full] at hb ⊢
    grind
  · intro h
    rw [wDcdB_half hc, wDcdB, if_neg (by simp [cis_full]), full_rest (show 14 + 4 ≤ 18 by decide),
      hB h]
    simp only [regSet, full_low (show 13 < 18 by decide), wMov, wCisOp_full]
    grind
  · rw [wI, cis_full, wI, hc]
    exact hI

theorem wFullI_full (hl : op.extractLsb' 1 4 ≠ 0xc) :
    wFullI (full r op b rest) =
      if op = 0x0d then (rest.extractLsb' 0 13).signExtend 23
      else if b then (rest.extractLsb' 0 14).signExtend 23
      else (rest.extractLsb' 0 18).signExtend 23 := by
  have hw : wLdi (full r op b rest) = false := by
    rw [wLdi, wCisOp_full]
    exact beq_eq_false_iff_ne.mpr hl
  rw [wFullI, hw, if_neg Bool.false_ne_true, wMov, wCisOp_full, full_b,
    full_rest (show 0 + 13 ≤ 18 by decide), full_rest (show 0 + 14 ≤ 18 by decide),
    full_rest (show 0 + 18 ≤ 18 by decide)]
  cases b <;> simp

theorem says_expand (hc : cis iword) (hop : wCisOp iword ≠ 0x18) :
    Says g (expand iword) iword := by
  have hl : (wCisOp iword).extractLsb' 1 4 ≠ 0xc := by
    rcases wCisOp_cases hc with h | h | h | h | h | h | h | h <;> simp_all
  unfold expand
  rw [if_neg hop]
  by_cases hm : wCisOp iword = 0x0d
  · rw [if_pos hm]
    refine says_full hc hop (fun _ => ⟨rfl, ?_⟩) (fun h => absurd hm h) (fun _ => ?_) ?_
    · simp only [BitVec.getLsbD_append]
      rfl
    · rw [BitVec.extractLsb'_append_eq_of_le (by decide),
        BitVec.extractLsb'_append_eq_of_le (by decide)]
      exact BitVec.extractLsb'_eq_self
    · rw [wFullI_full hl, if_pos hm, BitVec.extractLsb'_append_eq_right,
        signExtend_wHalfI (by decide)]
  · rw [if_neg hm]
    split
    next hb =>
      refine says_full hc hop (fun h => absurd h hm) (fun _ => hb.symm) (fun _ => ?_) ?_
      · exact BitVec.extractLsb'_append_eq_left
      · rw [wFullI_full hl, if_neg hm, if_pos rfl, BitVec.extractLsb'_append_eq_right,
          signExtend_wHalfI (by decide)]
    next hb =>
      refine says_full hc hop (fun h => absurd h hm) (fun _ => ?_) (fun h => absurd h hb) ?_
      · exact ((Bool.not_eq_true _).mp hb).symm
      · rw [wFullI_full hl, if_neg hm, if_neg Bool.false_ne_true, BitVec.extractLsb'_eq_self,
          signExtend_wHalfI (by decide)]

theorem wCisOp_fullLdi : wCisOp (fullLdi r imm) = 0x18 ∨ wCisOp (fullLdi r imm) = 0x19 := by
  have key : ∀ op : BitVec 5, op.extractLsb' 1 4 = 0xc → op = 0x18 ∨ op = 0x19 := by decide
  exact key _ wLdi_fullLdi

theorem seen_fullLdi (hc : cis iword) (hop : wCisOp iword = 0x18)
    (hr : word = fullLdi (iword.extractLsb' 27 4) ((wHalfI iword).signExtend 23)) :
    (decode g word).seen = (decode g iword).seen ∧ illegal word = false ∧
      illegal iword = false := by
  have hf : cis word = false := hr ▸ cis_fullLdi
  have hR : wDcdR g word = wDcdR g iword := by
    refine wDcdR_eq hc (hr ▸ fullLdi_r) ?_
    rcases wCisOp_fullLdi (r := iword.extractLsb' 27 4) with h | h <;>
      rw [regSet, wMov, hr, h] <;> simp
  have hI : wI word = wI iword := by
    rw [wI, hf, wI, hc, if_neg Bool.false_ne_true, if_pos rfl, wFullI, wLdi, hr, wLdi_fullLdi,
      beq_self_eq_true, if_pos rfl, fullLdi_imm]
  have hl : wLdi word = true := by rw [wLdi, hr, wLdi_fullLdi]; rfl
  have hw : wOp word = wCisOp word := wOp_eq_wCisOp hf
  have hop' : wCisOp word = 0x18 ∨ wCisOp word = 0x19 := hr ▸ wCisOp_fullLdi
  clear hr
  rcases hop' with h | h <;>
  · rw [h] at hw
    simp [decode, Decoded.seen, illegal, hR, hI, wCond, wMov, wLdi, wMem, wNoop, wDiv, wFpu, wRA,
      wRB, wWR, wWF, wSto, wCmptst, wALU, wBrev, wLdilo, noResult, hc, hf, hop, hw, h]

/-- Every compressed instruction is to everything behind the decoder, in either mode, what a full
word is, and legal. -/
theorem seen_expand (hc : cis iword) : cis (expand iword) = false ∧
    (decode g (expand iword)).seen = (decode g iword).seen ∧
      illegal (expand iword) = false ∧ illegal iword = false := by
  by_cases hop : wCisOp iword = 0x18
  · have he : expand iword = fullLdi _ _ := if_pos hop
    exact ⟨he ▸ cis_fullLdi, seen_fullLdi hc hop he⟩
  · have h := says_expand (g := g) hc hop
    exact ⟨h.full, h.seen hc⟩

/-- `LW 4(SP),R2` in sixteen bits. -/
theorem seen_expand_load : (decode true (expand 0x94040000)).seen = (decode true 0x94040000).seen :=
  (seen_expand (by decide)).2.1

/-- An instruction as the operand stage gets it: `pc` is where the next one is, and `phase` says
that the next one is in the same word. -/
structure Issue where
  seen : Decoded
  illegal : Bool
  gie : Bool
  pc : BitVec 24
  phase : Bool
  deriving DecidableEq

/-- The instructions of one word of the program, at its address. -/
def instructions (g : Bool) (w : BitVec 23 × BitVec 32) : List Issue :=
  if cis w.2 then
    [⟨(decode g (expand w.2)).seen, false, g, w.1 ++ (1 : BitVec 1), true⟩,
      ⟨(decode g (expand (secondHalf w.2))).seen, false, g, (w.1 + 1) ++ (0 : BitVec 1), false⟩]
  else [⟨(decode g w.2).seen, illegal w.2, g, (w.1 + 1) ++ (0 : BitVec 1), false⟩]

/-- The instruction on the outputs. -/
def State.held (d : State) : Issue := ⟨d.out.seen, d.oIllegal, d.oGie, d.oPc, d.rPhase⟩

/-- The instruction whose first half is on the outputs. -/
def State.second (d : State) : Issue :=
  ⟨(decode d.oGie (expand (d.rNxtHalf ++ (0 : BitVec 16)))).seen, false, d.oGie, d.oPc + 1, false⟩

/-- What the decoder has taken and not passed on. -/
def State.waiting (d : State) : List Issue :=
  (if d.rValid then [d.held] else []) ++ if d.rPhase then [d.second] else []

variable {d : State} {q : Input} {h lo : BitVec 16}

theorem upper {start len : Nat} (hs : 16 ≤ start) :
    (h ++ lo).extractLsb' start len = h.extractLsb' (start - 16) len :=
  BitVec.extractLsb'_append_eq_of_le hs

theorem upper_bit {k : Nat} (hk : 16 ≤ k) : (h ++ lo).getLsbD k = h.getLsbD (k - 16) := by
  rw [BitVec.getLsbD_append, if_neg (by omega)]

theorem cis_append : cis (h ++ lo) = h.getLsbD 15 := upper_bit (by decide)

/-- A compressed instruction does not depend on the half below it. -/
theorem expand_append : expand (h ++ lo) = expand (h ++ (0 : BitVec 16)) := by
  have hop : wCisOp (h ++ lo) = wCisOp (h ++ (0 : BitVec 16)) := by
    simp only [wCisOp, cis_append, wOp, upper (show 16 ≤ 22 by decide),
      upper (show 16 ≤ 24 by decide)]
  have hi : wHalfI (h ++ lo) = wHalfI (h ++ (0 : BitVec 16)) := by
    simp only [wHalfI, upper (show 16 ≤ 24 by decide), upper (show 16 ≤ 16 by decide),
      upper_bit (show 16 ≤ 23 by decide)]
  have hb : halfB (h ++ lo) = halfB (h ++ (0 : BitVec 16)) := by
    simp only [halfB, upper (show 16 ≤ 25 by decide), upper (show 16 ≤ 19 by decide),
      upper_bit (show 16 ≤ 23 by decide)]
  have hB : wRB (h ++ lo) = wRB (h ++ (0 : BitVec 16)) := by
    simp only [wRB, wMov, wLdi, wMem, hop, cis_append, upper_bit (show 16 ≤ 23 by decide),
      upper_bit (show 16 ≤ 18 by decide)]
  simp only [expand, hop, hi, hb, hB, upper (show 16 ≤ 27 by decide)]

theorem half_bit {y : BitVec 15} : (BitVec.ofBool b ++ y).getLsbD 15 = b := by
  rw [BitVec.getLsbD_append, if_neg (by decide)]
  simp

theorem toNat_halfword (a : BitVec 23) (y : BitVec 1) :
    (a ++ y).toNat = 2 * a.toNat + y.toNat := by
  rw [BitVec.toNat_append, ← Nat.shiftLeft_add_eq_or_of_lt y.isLt, Nat.shiftLeft_eq]
  omega

theorem next_word (a : BitVec 23) : a ++ 1#1 + 1#24 = (a + 1#23) ++ 0#1 := by
  apply BitVec.eq_of_toNat_eq
  rw [BitVec.toNat_add, toNat_halfword, toNat_halfword, BitVec.toNat_add]
  change (2 * a.toNat + 1 + 1) % 2 ^ 24 = 2 * ((a.toNat + 1) % 2 ^ 23) + 0
  omega

/-- The decoder runs, and what the prefetch offers is no bus error. -/
structure Input.Runs (q : Input) : Prop where
  reset : q.iRst = false
  ce : q.iCe = true
  legal : q.iIllegal = false

/-- Between the halves of a word the first is on the outputs, and the second is compressed too. -/
theorem phase_step (h : d.rPhase → d.rValid ∧ d.rNxtHalf.getLsbD 15)
    (hq : q.iCe = false → q.iStalled) (hp : (step d q).rPhase) :
    (step d q).rValid ∧ (step d q).rNxtHalf.getLsbD 15 := by
  simp only [step] at hp ⊢
  refine ⟨by grind, ?_⟩
  cases hc : q.iCe with
  | true =>
    rw [if_pos rfl, half_bit, State.iword]
    grind
  | false => exact (h (by grind)).2

theorem waiting_reset (hr : q.iRst) : (step d q).waiting = [] := by
  simp [State.waiting, step, hr]

theorem waiting_stalled (hr : q.iRst = false) (hc : q.iCe = false) (hs : q.iStalled) :
    (step d q).waiting = d.waiting := by
  simp [State.waiting, State.held, State.second, step, hr, hc, hs]

theorem waiting_empty (hq : q.Runs) (hp : d.rPhase = false) (hv : q.iPfValid = false) :
    (step d q).waiting = [] := by
  simp [State.waiting, step, hq.reset, hq.ce, hq.legal, hp, hv]

/-- The second half of a word follows the first without the prefetch. -/
theorem waiting_second (hq : q.Runs) (hp : d.rPhase) (hh : d.rNxtHalf.getLsbD 15)
    (hg : q.iGie = d.oGie) : (step d q).waiting = [d.second] := by
  have hw : d.iword q = d.rNxtHalf ++ q.iInstruction.extractLsb' 0 16 := if_pos hp
  have hc : cis (d.iword q) := by rw [hw, cis_append, hh]
  obtain ⟨-, hs, -, hi⟩ := seen_expand (g := d.oGie) hc
  rw [hw, expand_append, ← hw] at hs
  simp [State.waiting, State.held, State.second, step, hq.reset, hq.ce, hq.legal, hp, hg, hc, hi]
  exact hs.symm

/-- A word of the program comes out as its instructions. -/
theorem waiting_word (hq : q.Runs) (hp : d.rPhase = false) (hv : q.iPfValid) :
    (step d q).waiting = instructions q.iGie (q.iPc, q.iInstruction) := by
  have hw : d.iword q = q.iInstruction := if_neg (by simp [hp])
  have hb : q.iInstruction.getLsbD 31 = cis q.iInstruction := rfl
  cases hc : cis q.iInstruction with
  | false =>
    simp [State.waiting, State.held, instructions, step, hq.reset, hq.ce, hq.legal, hp, hv, hw, hc,
      hb, -BitVec.getLsbD_eq_getElem]
  | true =>
    obtain ⟨-, hs, -, hi⟩ := seen_expand (g := q.iGie) hc
    simp [State.waiting, State.held, State.second, instructions, secondHalf, step, hq.reset, hq.ce,
      hq.legal, hp, hv, hw, hc, hb, hi, hs, next_word, -BitVec.getLsbD_eq_getElem]

end S6Soc.IDecode
