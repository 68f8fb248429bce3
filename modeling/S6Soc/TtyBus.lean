import Mathlib
import S6Soc.Clocked

/-! The host's end of the debugging bus, `TTYBUS::writev`, and the decoder at the other
end of the wire: a table of the last 256 words on either side. -/
namespace S6Soc.TtyBus
open Clocked

abbrev Word := BitVec 32

def charenc (sixbitval : BitVec 6) : Char :=
  let n := sixbitval.toNat
  if n < 10 then Char.ofNat (48 + n)
  else if n < 36 then Char.ofNat (65 - 10 + n)
  else if n < 62 then Char.ofNat (97 - 36 + n)
  else if n = 62 then '@'
  else '%'

def chardec (b : Char) : Option (BitVec 6) :=
  let n := b.toNat
  if 48 ≤ n ∧ n ≤ 57 then some (BitVec.ofNat 6 (n - 48))
  else if 65 ≤ n ∧ n ≤ 90 then some (BitVec.ofNat 6 (n - 65 + 10))
  else if 97 ≤ n ∧ n ≤ 122 then some (BitVec.ofNat 6 (n - 97 + 36))
  else if b = '@' then some 0x3e
  else if b = '%' then some 0x3f
  else none

/-- `(v >> k) & 0x3f`. -/
def sixbits (v : Word) (k : Nat) : BitVec 6 := v.extractLsb' k 6

/-- `m_wraddr` is kept below 256. -/
structure State where
  addrSet : Bool
  lastaddr : Word
  wrloaded : Bool
  wraddr : BitVec 8
  writetbl : BitVec 8 → Word

/-- After `init`. -/
structure State.Initial (s : State) : Prop where
  addrSet : s.addrSet = false
  wrloaded : s.wrloaded = false
  wraddr : s.wraddr = 0

/-- `diffaddr`: both addresses are unsigned. -/
def State.diffaddr (s : State) (a : Word) : Word := (a - s.lastaddr) >>> 2

/-- The differential codes. -/
def diffCode (diffaddr : Word) : List (BitVec 6) :=
  if -32 ≤ diffaddr.toInt ∧ diffaddr.toInt < 32 then [0x09, sixbits diffaddr 0]
  else if -2048 ≤ diffaddr.toInt ∧ diffaddr.toInt < 2048 then
    [0x0b, sixbits diffaddr 6, sixbits diffaddr 0]
  else if -131072 ≤ diffaddr.toInt ∧ diffaddr.toInt < 131072 then
    [0x0d, sixbits diffaddr 12, sixbits diffaddr 6, sixbits diffaddr 0]
  else if -8388608 ≤ diffaddr.toInt ∧ diffaddr.toInt < 8388608 then
    [0x0d, sixbits diffaddr 18, sixbits diffaddr 12, sixbits diffaddr 6, sixbits diffaddr 0]
  else []

def rawCode (first : BitVec 6) (v : Word) : List (BitVec 6) :=
  [first, sixbits v 24, sixbits v 18, sixbits v 12, sixbits v 6, sixbits v 0]

/-- The absolute codes, used where they are no longer than the code there already is. -/
def absCode (addr : Word) (ptr : List (BitVec 6)) : List (BitVec 6) :=
  if addr ≤ 0x3f ∧ (ptr = [] ∨ 2 ≤ ptr.length) then [0x08, sixbits addr 0]
  else if addr ≤ 0xfff ∧ (ptr = [] ∨ 3 ≤ ptr.length) then [0x0a, sixbits addr 6, sixbits addr 0]
  else if addr ≤ 0x3ffff ∧ (ptr = [] ∨ 4 ≤ ptr.length) then
    [0x0c, sixbits addr 12, sixbits addr 6, sixbits addr 0]
  else if addr ≤ 0xffffff ∧ (ptr = [] ∨ 5 ≤ ptr.length) then
    [0x0e, sixbits addr 18, sixbits addr 12, sixbits addr 6, sixbits addr 0]
  else if ptr = [] then rawCode ((addr.extractLsb' 30 2).setWidth 6) addr
  else ptr

def aligned (a : Word) : Bool := a.extractLsb' 0 2 == 0

/-- Unless the address is where the last command left off. -/
def State.encodeAddress (s : State) (a : Word) : List (BitVec 6) :=
  if s.addrSet ∧ a = s.lastaddr then []
  else absCode (a >>> 2) (if s.addrSet then diffCode (s.diffaddr a) else [])

/-- The search for an earlier word, `k` entries before the end of the loop: how many
entries back it is, or 0. -/
def State.search (s : State) (val : Word) : Nat → BitVec 8
  | 0 => 0
  | k + 1 =>
    let tstaddr := s.wraddr - BitVec.ofNat 8 (255 - k)
    if !s.wrloaded && s.wraddr < tstaddr then 0
    else if s.writetbl tstaddr = val then s.wraddr - tstaddr
    else s.search val k

def incBit (p : Bool) : BitVec 6 := if p then 1 else 0

/-- The code of one data word. -/
def State.wordCode (s : State) (p : Bool) (val : Word) : List (BitVec 6) :=
  let caddr := s.search val 255
  if caddr ≠ 0 then
    [((caddr.extractLsb' 6 2).setWidth 6 <<< 1) + incBit p + 0x10, caddr.setWidth 6]
  else rawCode (((val.extractLsb' 30 2).setWidth 6 <<< 1) + incBit p + 0x18) val

/-- A word that was not found goes into the table. -/
def State.wrote (s : State) (p : Bool) (val : Word) : State :=
  let s' := if s.search val 255 ≠ 0 then s
    else { s with
      writetbl := Function.update s.writetbl s.wraddr val
      wraddr := s.wraddr + 1
      wrloaded := s.wrloaded || s.wraddr + 1 == 0 }
  if p then { s' with lastaddr := s'.lastaddr + 4 } else s'

def State.words (s : State) (p : Bool) : List Word → State × List (BitVec 6)
  | [] => (s, [])
  | val :: buf =>
    let (s', out) := (s.wrote p val).words p buf
    (s', s.wordCode p val ++ out)

def MAXWRLEN : Nat := 32

/-- The loop over blocks of `MAXWRLEN` words; `ptr` is what the buffer holds already. The
newline comes after the last block. -/
def State.blocks (s : State) (p : Bool) (ptr : List (BitVec 6)) (buf : List Word) :
    State × List Char :=
  if buf = [] then (s, [])
  else
    let (s', out) := s.words p (buf.take MAXWRLEN)
    let sent := (ptr ++ out).map charenc
    if buf.length ≤ MAXWRLEN then (s', sent ++ ['\n'])
    else
      let (s'', rest) := s'.blocks p [] (buf.drop MAXWRLEN)
      (s'', sent ++ rest)
termination_by buf.length
decreasing_by
  simp only [MAXWRLEN, List.length_drop] at *
  omega

structure Call where
  a : Word
  p : Bool
  buf : List Word

/-- The host afterwards and what it has sent. An address that is not aligned is thrown
back before anything is done. -/
def State.writev (s : State) (c : Call) : Option (State × List Char) :=
  if aligned c.a then
    some ({ s with lastaddr := c.a, addrSet := true }.blocks c.p (s.encodeAddress c.a) c.buf)
  else none

/-- The writes a call asks for. -/
def Call.writes (a : Word) (p : Bool) : List Word → List (Word × Word)
  | [] => []
  | val :: buf => (a, val) :: Call.writes (if p then a + 4 else a) p buf

/-- `addr` counts words, `written` bytes. -/
structure Decoder where
  part : List (BitVec 6)
  addr : Word
  count : BitVec 8
  table : BitVec 8 → Word
  written : List (Word × Word)

/-- How many characters a code has that starts with `b`. -/
def codeLength (b : BitVec 6) : Nat :=
  if b.extractLsb' 4 2 = 3 then 2
  else if b.extractLsb' 4 2 = 2 then 1
  else if b.extractLsb' 3 3 = 2 then 2
  else if b.extractLsb' 3 3 = 1 then 2 + (b.extractLsb' 1 2).toNat
  else 6

def gather (v : Word) (bs : List (BitVec 6)) : Word :=
  bs.foldl (fun v b => v <<< 6 ||| b.setWidth 32) v

def Decoder.write (d : Decoder) (inc : Bool) (val : Word) : Decoder :=
  { d with
    written := d.written ++ [(d.addr <<< 2, val)]
    addr := if inc then d.addr + 1 else d.addr }

def Decoder.execute (d : Decoder) (b : BitVec 6) (bs : List (BitVec 6)) : Decoder :=
  if b.extractLsb' 3 3 = 3 then
    let val := gather ((b.extractLsb' 1 2).setWidth 32) bs
    { d.write (b.getLsbD 0) val with
      table := Function.update d.table d.count val
      count := d.count + 1 }
  else if b.extractLsb' 3 3 = 2 then
    d.write (b.getLsbD 0)
      (d.table (d.count - (gather ((b.extractLsb' 1 2).setWidth 32) bs).setWidth 8))
  else if b.extractLsb' 3 3 = 1 then
    if b.getLsbD 0 then
      let sign := (bs.headD 0).getLsbD 5
      { d with addr := d.addr + gather (if sign then BitVec.allOnes 32 else 0) bs }
    else { d with addr := gather 0 bs }
  else if b.extractLsb' 2 4 = 0 then
    { d with addr := gather ((b.extractLsb' 0 2).setWidth 32) bs }
  else d

def Decoder.step (d : Decoder) (c : Char) : Decoder :=
  match chardec c with
  | none => { d with part := [] }
  | some x =>
    match d.part ++ [x] with
    | [] => d
    | b :: bs =>
      if bs.length + 1 = codeLength b then { d.execute b bs with part := [] }
      else { d with part := b :: bs }

theorem chardec_charenc : ∀ x : BitVec 6, chardec (charenc x) = some x := by decide

theorem gather_sixbits (v : Word) (k : Nat) :
    v >>> (k + 6) <<< 6 ||| (sixbits v k).setWidth 32 = v >>> k := by
  apply BitVec.eq_of_getLsbD_eq
  intro i hi
  simp only [sixbits, BitVec.getLsbD_or, BitVec.getLsbD_shiftLeft, BitVec.getLsbD_ushiftRight,
    BitVec.getLsbD_setWidth, BitVec.getLsbD_extractLsb']
  by_cases h : i < 6
  · simp [h, hi]
  · simp [h, hi, show k + 6 + (i - 6) = k + i by omega]

theorem gather_cons (v : Word) (k : Nat) (bs : List (BitVec 6)) :
    gather (v >>> (k + 6)) (sixbits v k :: bs) = gather (v >>> k) bs := by
  rw [gather, List.foldl_cons, gather_sixbits, gather]

/-- The bits left over above the characters, then the characters. -/
theorem gather_two (v : Word) : gather (v >>> 12) [sixbits v 6, sixbits v 0] = v := by
  rw [gather_cons v 6, gather_cons v 0]
  simp [gather]

theorem gather_three (v : Word) :
    gather (v >>> 18) [sixbits v 12, sixbits v 6, sixbits v 0] = v := by
  rw [gather_cons v 12, gather_two]

theorem gather_four (v : Word) :
    gather (v >>> 24) [sixbits v 18, sixbits v 12, sixbits v 6, sixbits v 0] = v := by
  rw [gather_cons v 18, gather_three]

theorem gather_five (v : Word) :
    gather (v >>> 30) [sixbits v 24, sixbits v 18, sixbits v 12, sixbits v 6, sixbits v 0] = v := by
  rw [gather_cons v 24, gather_four]

def Decoder.read (d : Decoder) (cs : List Char) : Decoder := cs.foldl Decoder.step d

theorem Decoder.read_append (d : Decoder) (xs ys : List Char) :
    d.read (xs ++ ys) = (d.read xs).read ys := List.foldl_append

theorem Decoder.execute_part (d : Decoder) (part bs : List (BitVec 6)) (b : BitVec 6) :
    { ({ d with part := part } : Decoder).execute b bs with part := [] } =
      { d.execute b bs with part := [] } := by
  unfold Decoder.execute
  split_ifs <;> rfl

/-- Part of a code has been read; the rest completes it. -/
theorem Decoder.read_rest (d : Decoder) (b : BitVec 6) (pre rest : List (BitVec 6))
    (hd : d.part = b :: pre) (hr : rest ≠ [])
    (hl : (pre ++ rest).length + 1 = codeLength b) :
    d.read (rest.map charenc) = { d.execute b (pre ++ rest) with part := [] } := by
  induction rest generalizing d pre with
  | nil => exact absurd rfl hr
  | cons x rest ih =>
    rw [List.map_cons, Decoder.read, List.foldl_cons]
    simp only [Decoder.step, chardec_charenc, hd, List.cons_append]
    cases rest with
    | nil =>
      rw [if_pos hl]
      rfl
    | cons y ys =>
      rw [if_neg (by
        simp only [List.length_append, List.length_cons, List.length_nil] at hl ⊢
        omega)]
      have h := ih { d with part := b :: (pre ++ [x]) } (pre ++ [x]) rfl (by simp)
        (by simpa using hl)
      rw [Decoder.execute_part, List.append_assoc, List.singleton_append] at h
      exact h

theorem Decoder.read_code (d : Decoder) (b : BitVec 6) (bs : List (BitVec 6)) (hd : d.part = [])
    (hl : bs.length + 1 = codeLength b) (hb : bs ≠ []) :
    d.read ((b :: bs).map charenc) = { d.execute b bs with part := [] } := by
  have hone : ¬ (1 = codeLength b) := by
    have := List.length_pos_iff.mpr hb
    omega
  rw [List.map_cons, Decoder.read, List.foldl_cons]
  simp only [Decoder.step, chardec_charenc, hd, List.nil_append, List.length_nil, Nat.zero_add,
    if_neg hone]
  have h := Decoder.read_rest { d with part := [b] } b [] bs rfl hb hl
  rwa [Decoder.execute_part] at h

/-- A code that moves the decoder to word `x`. -/
def Moves (d : Decoder) (code : List (BitVec 6)) (x : Word) : Prop :=
  d.part = [] → d.read (code.map charenc) = { d with addr := x }

theorem moves_of_execute {d : Decoder} {b : BitVec 6} {bs : List (BitVec 6)} {x : Word}
    (hl : bs.length + 1 = codeLength b) (hb : bs ≠ [])
    (he : d.execute b bs = { d with addr := x }) :
    Moves d (b :: bs) x := by
  intro hd
  rw [Decoder.read_code d b bs hd hl hb, he]
  simp [hd]

theorem moves_absolute {d : Decoder} {b : BitVec 6} {bs : List (BitVec 6)} {x : Word}
    (hl : bs.length + 1 = codeLength b) (hb : bs ≠ []) (h₃ : b.extractLsb' 3 3 = 1)
    (h₀ : b.getLsbD 0 = false) (hg : gather 0 bs = x) : Moves d (b :: bs) x := by
  apply moves_of_execute hl hb
  simp only [Decoder.execute, h₃, h₀, ← hg]
  rfl

theorem moves_difference {d : Decoder} {b : BitVec 6} {bs : List (BitVec 6)} {x : Word}
    (hl : bs.length + 1 = codeLength b) (hb : bs ≠ []) (h₃ : b.extractLsb' 3 3 = 1)
    (h₀ : b.getLsbD 0 = true) (hs : (bs.headD 0).getLsbD 5 = false) (hg : gather 0 bs = x) :
    Moves d (b :: bs) (d.addr + x) := by
  apply moves_of_execute hl hb
  simp only [Decoder.execute, h₃, h₀, hs, ← hg]
  rfl

theorem ushiftRight_eq_zero {v : Word} {k : Nat} (h : v.toNat < 2 ^ k) : v >>> k = 0 := by
  apply BitVec.eq_of_toNat_eq
  rw [BitVec.toNat_ushiftRight, Nat.shiftRight_eq_div_pow, Nat.div_eq_of_lt h]
  rfl

theorem gather_one_of_lt {v : Word} (h : v.toNat < 64) : gather 0 [sixbits v 0] = v := by
  have := gather_cons v 0 []
  rw [ushiftRight_eq_zero (k := 0 + 6) h] at this
  simpa [gather] using this

theorem gather_two_of_lt {v : Word} (h : v.toNat < 4096) :
    gather 0 [sixbits v 6, sixbits v 0] = v := by
  rw [← ushiftRight_eq_zero (k := 12) h, gather_two]

theorem gather_three_of_lt {v : Word} (h : v.toNat < 262144) :
    gather 0 [sixbits v 12, sixbits v 6, sixbits v 0] = v := by
  rw [← ushiftRight_eq_zero (k := 18) h, gather_three]

theorem gather_four_of_lt {v : Word} (h : v.toNat < 16777216) :
    gather 0 [sixbits v 18, sixbits v 12, sixbits v 6, sixbits v 0] = v := by
  rw [← ushiftRight_eq_zero (k := 24) h, gather_four]

theorem moves_rawCode {d : Decoder} {addr : Word} (ha : addr.toNat < 2 ^ 30) :
    Moves d (rawCode ((addr.extractLsb' 30 2).setWidth 6) addr) addr := by
  have hz : addr >>> 30 = 0 := ushiftRight_eq_zero ha
  have hfirst : (addr.extractLsb' 30 2).setWidth 6 = 0 := by
    apply BitVec.eq_of_getLsbD_eq
    intro i hi
    have := congrArg (fun v => v.getLsbD i) hz
    simp only [BitVec.getLsbD_ushiftRight] at this
    simp [this]
  rw [rawCode, hfirst]
  apply moves_of_execute rfl (by simp)
  have := gather_five addr
  rw [hz] at this
  simp only [Decoder.execute]
  exact congrArg (fun x => { d with addr := x }) this

/-- An absolute code is written, or the code there already is stays: not one of five
characters unless the address needs six. -/
theorem absCode_cases (d : Decoder) (addr : Word) (ptr : List (BitVec 6))
    (ha : addr.toNat < 2 ^ 30) : Moves d (absCode addr ptr) addr ∨
      (absCode addr ptr = ptr ∧ ptr ≠ [] ∧ (5 ≤ ptr.length → 16777216 ≤ addr.toNat)) := by
  unfold absCode
  split_ifs with h₁ h₂ h₃ h₄ h₅
  · have hn : addr.toNat ≤ 63 := h₁.1
    exact Or.inl (moves_absolute rfl (by simp) rfl rfl (gather_one_of_lt (by omega)))
  · have hn : addr.toNat ≤ 4095 := h₂.1
    exact Or.inl (moves_absolute rfl (by simp) rfl rfl (gather_two_of_lt (by omega)))
  · have hn : addr.toNat ≤ 262143 := h₃.1
    exact Or.inl (moves_absolute rfl (by simp) rfl rfl (gather_three_of_lt (by omega)))
  · have hn : addr.toNat ≤ 16777215 := h₄.1
    exact Or.inl (moves_absolute rfl (by simp) rfl rfl (gather_four_of_lt (by omega)))
  · exact Or.inl (moves_rawCode ha)
  · refine Or.inr ⟨rfl, h₅, fun h => ?_⟩
    by_contra hlt
    have hle : addr ≤ 0xffffff := show addr.toNat ≤ 16777215 by omega
    exact h₄ ⟨hle, Or.inr h⟩

/-- The differences whose code is written with the first character of a shorter one. -/
def LongStep (diffaddr : Word) : Prop := 131072 ≤ diffaddr.toNat ∧ diffaddr.toNat < 8388608

theorem sixbits_sign {v : Word} {k : Nat} (h : v.toNat < 2 ^ (k + 5)) :
    (sixbits v k).getLsbD 5 = false := by
  simp only [sixbits, BitVec.getLsbD_extractLsb']
  rw [BitVec.getLsbD, Nat.testBit_lt_two_pow h]
  simp

theorem diffCode_cases (d : Decoder) (diff : Word) (hd : diff.toNat < 2 ^ 30) :
    Moves d (diffCode diff) (d.addr + diff) ∨ diffCode diff = [] ∨
      (LongStep diff ∧ (diffCode diff).length = 5) := by
  have hint : diff.toInt = diff.toNat := BitVec.toInt_eq_toNat_of_lt (by omega)
  unfold diffCode
  rw [hint]
  split_ifs with h₁ h₂ h₃ h₄
  · exact Or.inl (moves_difference rfl (by simp) rfl rfl (sixbits_sign (by omega))
      (gather_one_of_lt (by omega)))
  · exact Or.inl (moves_difference rfl (by simp) rfl rfl (sixbits_sign (by omega))
      (gather_two_of_lt (by omega)))
  · exact Or.inl (moves_difference rfl (by simp) rfl rfl (sixbits_sign (by omega))
      (gather_three_of_lt (by omega)))
  · exact Or.inr (Or.inr ⟨⟨by omega, by omega⟩, rfl⟩)
  · exact Or.inr (Or.inl rfl)

theorem shiftLeft_ushiftRight {a : Word} (h : aligned a) : a >>> 2 <<< 2 = a := by
  have hz : a.extractLsb' 0 2 = 0 := by simpa [aligned] using h
  apply BitVec.eq_of_getLsbD_eq
  intro i hi
  have hbit := congrArg (fun v => v.getLsbD i) hz
  simp only [BitVec.getLsbD_extractLsb'] at hbit
  simp only [BitVec.getLsbD_shiftLeft, BitVec.getLsbD_ushiftRight]
  by_cases h : i < 2
  · simp_all
  · simp [h, hi, show 2 + (i - 2) = i by omega]

theorem aligned_iff {a : Word} : aligned a ↔ a.toNat % 4 = 0 := by
  rw [aligned, beq_iff_eq, ← BitVec.toNat_inj]
  simp [BitVec.extractLsb'_toNat]

theorem toNat_ushiftRight_two_lt (a : Word) : (a >>> 2).toNat < 2 ^ 30 := by
  rw [BitVec.toNat_ushiftRight, Nat.shiftRight_eq_div_pow]
  have := a.isLt
  omega

/-- The decoder, between two codes, has the host's address and the words the host's table
holds. -/
structure Sync (s : State) (d : Decoder) : Prop where
  part : d.part = []
  addr : s.addrSet → d.addr <<< 2 = s.lastaddr
  count : d.count = s.wraddr
  table : ∀ k, s.wrloaded ∨ k < s.wraddr → d.table k = s.writetbl k

/-- Where the address code fails: one too long for its prefix, and no absolute code that
replaces it. -/
def Misread (s : State) (a : Word) : Prop :=
  s.addrSet ∧ a ≠ s.lastaddr ∧ LongStep (s.diffaddr a) ∧ 16777216 ≤ (a >>> 2).toNat

theorem aligned_of_shiftLeft {x y : Word} (h : x <<< 2 = y) : y.toNat % 4 = 0 := by
  rw [← h, BitVec.toNat_shiftLeft]
  omega

variable {s : State} {d : Decoder} {a : Word}

theorem Sync.diffaddr (h : Sync s d) (hs : s.addrSet) (ha : aligned a) :
    (d.addr + s.diffaddr a) <<< 2 = a := by
  have hl := h.addr hs
  have hm : aligned (a - s.lastaddr) := by
    have := aligned_of_shiftLeft hl
    have := aligned_iff.mp ha
    rw [aligned_iff, BitVec.toNat_sub]
    omega
  rw [State.diffaddr, BitVec.shiftLeft_add_distrib, hl, shiftLeft_ushiftRight hm]
  rw [BitVec.add_comm, BitVec.sub_add_cancel]

/-- The address code takes the decoder to `a`. -/
theorem Sync.read_encodeAddress (h : Sync s d) (ha : aligned a) (hm : ¬ Misread s a) :
    ∃ x : Word, x <<< 2 = a ∧
      d.read ((s.encodeAddress a).map charenc) = { d with addr := x } := by
  unfold State.encodeAddress
  by_cases h₁ : s.addrSet ∧ a = s.lastaddr
  · rw [if_pos h₁]
    exact ⟨d.addr, (h.addr h₁.1).trans h₁.2.symm, rfl⟩
  · rw [if_neg h₁]
    have hlt := toNat_ushiftRight_two_lt a
    have hx := shiftLeft_ushiftRight ha
    rcases absCode_cases d (a >>> 2) (if s.addrSet then diffCode (s.diffaddr a) else []) hlt with
      hc | ⟨hk, hne, hlong⟩
    · exact ⟨a >>> 2, hx, hc h.part⟩
    · rw [hk]
      cases hs : s.addrSet with
      | false => simp [hs] at hne
      | true =>
        simp only [hs, if_true] at hne hlong ⊢
        rcases diffCode_cases d (s.diffaddr a) (toNat_ushiftRight_two_lt _) with hc | hc | ⟨hc, hl⟩
        · exact ⟨d.addr + s.diffaddr a, h.diffaddr hs ha, hc h.part⟩
        · exact absurd hc hne
        · exact absurd ⟨hs, fun he => h₁ ⟨hs, he⟩, hc, hlong (by omega)⟩ hm

theorem Sync.moved (h : Sync s d) {x : Word} (hx : x <<< 2 = a) :
    Sync { s with lastaddr := a, addrSet := true } { d with addr := x } :=
  ⟨h.part, fun _ => hx, h.count, h.table⟩

theorem sub_lt_of_ne_zero {x y : BitVec 8} (hy : y ≠ 0) (h : ¬ x < x - y) : x - y < x := by
  bv_omega

/-- What the search finds is in the table, that many entries back. -/
theorem State.search_found (s : State) (val : Word) (k : Nat) (hk : k ≤ 255)
    (h : s.search val k ≠ 0) :
    s.writetbl (s.wraddr - s.search val k) = val ∧
      (s.wrloaded ∨ s.wraddr - s.search val k < s.wraddr) := by
  induction k with
  | zero => exact absurd rfl h
  | succ k ih =>
    have hback : ∀ y : BitVec 8, s.wraddr - (s.wraddr - y) = y := by
      intro y
      rw [BitVec.sub_eq_iff_eq_add, BitVec.add_comm, BitVec.sub_add_cancel]
    simp only [State.search] at h ⊢
    split_ifs at h ⊢ with h₁ h₂
    · exact absurd rfl h
    · rw [hback] at h ⊢
      refine ⟨h₂, ?_⟩
      cases hw : s.wrloaded with
      | true => exact Or.inl rfl
      | false => exact Or.inr (sub_lt_of_ne_zero h (by simpa [hw] using h₁))
    · exact ih (by omega) h

theorem inc_write (d : Decoder) (p : Bool) (val : Word) (hs : d.addr <<< 2 = a) :
    (d.write p val).addr <<< 2 = if p then a + 4 else a := by
  cases p with
  | false => exact hs
  | true =>
    simp only [Decoder.write, if_true, BitVec.shiftLeft_add_distrib, hs]
    rfl

/-- The first characters of the two codes for a word. -/
theorem first_backref : ∀ (c : BitVec 2) (p : Bool),
    let b := (c.setWidth 6 <<< 1) + incBit p + 0x10
    b.extractLsb' 3 3 = 2 ∧ b.extractLsb' 1 2 = c ∧ b.getLsbD 0 = p ∧ codeLength b = 2 := by
  decide

theorem first_raw : ∀ (c : BitVec 2) (p : Bool),
    let b := (c.setWidth 6 <<< 1) + incBit p + 0x18
    b.extractLsb' 3 3 = 3 ∧ b.extractLsb' 1 2 = c ∧ b.getLsbD 0 = p ∧ codeLength b = 6 := by
  decide

theorem gather_backref (c : BitVec 8) :
    (gather ((c.extractLsb' 6 2).setWidth 32) [c.setWidth 6]).setWidth 8 = c := by
  apply BitVec.eq_of_getLsbD_eq
  intro i hi
  simp only [gather, List.foldl_cons, List.foldl_nil, BitVec.getLsbD_setWidth, BitVec.getLsbD_or,
    BitVec.getLsbD_shiftLeft, BitVec.getLsbD_extractLsb']
  by_cases h : i < 6
  · simp [h, hi, show i < 32 by omega]
  · simp [h, hi, show i < 32 by omega, show i - 6 < 2 by omega, show i - 6 < 32 by omega,
      show 6 + (i - 6) = i by omega]

theorem gather_raw (v : Word) : gather ((v.extractLsb' 30 2).setWidth 32)
    [sixbits v 24, sixbits v 18, sixbits v 12, sixbits v 6, sixbits v 0] = v := by
  have h : (v.extractLsb' 30 2).setWidth 32 = v >>> 30 := by
    apply BitVec.eq_of_getLsbD_eq
    intro i hi
    simp only [BitVec.getLsbD_setWidth, BitVec.getLsbD_extractLsb', BitVec.getLsbD_ushiftRight]
    by_cases h : i < 2
    · simp [h, hi]
    · simp [h]
      exact BitVec.getLsbD_of_ge v _ (by omega)
  rw [h, gather_five]

theorem State.wrote_found {p : Bool} {val : Word} (hc : s.search val 255 ≠ 0) :
    s.wrote p val = { s with lastaddr := if p then s.lastaddr + 4 else s.lastaddr } := by
  rw [State.wrote, if_pos hc]
  cases p <;> rfl

theorem State.wrote_missing {p : Bool} {val : Word} (hc : ¬ s.search val 255 ≠ 0) :
    s.wrote p val =
      { s with
        lastaddr := if p then s.lastaddr + 4 else s.lastaddr
        writetbl := Function.update s.writetbl s.wraddr val
        wraddr := s.wraddr + 1
        wrloaded := s.wrloaded || s.wraddr + 1 == 0 } := by
  rw [State.wrote, if_neg hc]
  cases p <;> rfl

theorem State.wrote_lastaddr (s : State) (p : Bool) (val : Word) :
    (s.wrote p val).lastaddr = if p then s.lastaddr + 4 else s.lastaddr := by
  by_cases hc : s.search val 255 ≠ 0
  · rw [State.wrote_found hc]
  · rw [State.wrote_missing hc]

theorem State.wrote_addrSet (s : State) (p : Bool) (val : Word) :
    (s.wrote p val).addrSet = s.addrSet := by
  by_cases hc : s.search val 255 ≠ 0
  · rw [State.wrote_found hc]
  · rw [State.wrote_missing hc]

/-- The entries that count after one more: those before, and the new one. -/
theorem lt_succ_cases {k n : BitVec 8} {w : Bool} (h : (w || n + 1 == 0) = true ∨ k < n + 1)
    (hk : k ≠ n) : w = true ∨ k < n := by
  cases w with
  | true => exact Or.inl rfl
  | false =>
    right
    rcases h with h | h
    · have : n + 1 = 0 := by simpa using h
      bv_omega
    · bv_omega

theorem Sync.found (h : Sync s d) {p : Bool} {val : Word} (hs : s.addrSet)
    (hc : s.search val 255 ≠ 0) : Sync (s.wrote p val) { d.write p val with part := [] } := by
  rw [State.wrote_found hc]
  exact ⟨rfl, fun _ => inc_write d p val (h.addr hs), h.count, h.table⟩

theorem Sync.missing (h : Sync s d) {p : Bool} {val : Word} (hs : s.addrSet)
    (hc : ¬ s.search val 255 ≠ 0) :
    Sync (s.wrote p val)
      { d.write p val with
        part := []
        table := Function.update d.table d.count val
        count := d.count + 1 } := by
  rw [State.wrote_missing hc]
  refine ⟨rfl, fun _ => inc_write d p val (h.addr hs), by simp [h.count], ?_⟩
  intro k hk
  simp only [h.count]
  by_cases hn : k = s.wraddr
  · subst hn
    simp
  · rw [Function.update_of_ne hn, Function.update_of_ne hn]
    exact h.table k (lt_succ_cases hk hn)

/-- A data word is written where it should be, and both tables take it up or neither. -/
theorem Sync.read_word (h : Sync s d) (hs : s.addrSet) (p : Bool) (val : Word) :
    Sync (s.wrote p val) (d.read ((s.wordCode p val).map charenc)) ∧
      (d.read ((s.wordCode p val).map charenc)).written =
        d.written ++ [(s.lastaddr, val)] := by
  have ha := h.addr hs
  by_cases hc : s.search val 255 ≠ 0
  · obtain ⟨h₃, hcc, hp, hl⟩ := first_backref ((s.search val 255).extractLsb' 6 2) p
    obtain ⟨hv, hk⟩ := s.search_found val 255 (by decide) hc
    have hd : d.read ((s.wordCode p val).map charenc) = { d.write p val with part := [] } := by
      rw [State.wordCode, if_pos hc, Decoder.read_code d _ _ h.part (by rw [hl]; rfl) (by simp)]
      simp only [Decoder.execute, h₃, hcc, hp, gather_backref]
      rw [h.count, h.table _ hk, hv]
      rfl
    rw [hd]
    exact ⟨h.found hs hc, by simp [Decoder.write, ha]⟩
  · obtain ⟨h₃, hcc, hp, hl⟩ := first_raw (val.extractLsb' 30 2) p
    have hd : d.read ((s.wordCode p val).map charenc) =
        { d.write p val with
          part := []
          table := Function.update d.table d.count val
          count := d.count + 1 } := by
      rw [State.wordCode, if_neg hc, rawCode,
        Decoder.read_code d _ _ h.part (by rw [hl]; rfl) (by simp)]
      simp only [Decoder.execute, h₃, hcc, hp, gather_raw]
      rfl
    rw [hd]
    exact ⟨h.missing hs hc, by simp [Decoder.write, ha]⟩

theorem State.words_append (s : State) (p : Bool) (xs ys : List Word) :
    s.words p (xs ++ ys) =
      (((s.words p xs).1.words p ys).1, (s.words p xs).2 ++ ((s.words p xs).1.words p ys).2) := by
  induction xs generalizing s with
  | nil => rfl
  | cons val xs ih =>
    simp only [List.cons_append, State.words]
    rw [ih]
    simp [List.append_assoc]

theorem Sync.read_words (h : Sync s d) (hs : s.addrSet) (p : Bool) (buf : List Word) :
    Sync (s.words p buf).1 (d.read ((s.words p buf).2.map charenc)) ∧
      (d.read ((s.words p buf).2.map charenc)).written =
        d.written ++ Call.writes s.lastaddr p buf := by
  induction buf generalizing s d with
  | nil => exact ⟨h, by simp [State.words, Decoder.read, Call.writes]⟩
  | cons val buf ih =>
    obtain ⟨hw, hwr⟩ := h.read_word hs p val
    obtain ⟨hr, hrr⟩ := ih hw ((s.wrote_addrSet p val).trans hs)
    simp only [State.words, List.map_append, Decoder.read_append]
    refine ⟨hr, ?_⟩
    rw [hrr, hwr, State.wrote_lastaddr, Call.writes]
    simp

/-- The blocks make no difference to what is sent, but for the newline at the end. -/
theorem State.blocks_eq (s : State) (p : Bool) (ptr : List (BitVec 6)) (buf : List Word)
    (hb : buf ≠ []) : s.blocks p ptr buf =
      ((s.words p buf).1, (ptr ++ (s.words p buf).2).map charenc ++ ['\n']) := by
  induction hn : buf.length using Nat.strongRecOn generalizing s ptr buf with
  | _ n ih =>
    rw [State.blocks, if_neg hb]
    by_cases hle : buf.length ≤ MAXWRLEN
    · simp only [if_pos hle, List.take_of_length_le hle]
    · have hlt : MAXWRLEN < buf.length := by omega
      have hd : buf.drop MAXWRLEN ≠ [] := by
        intro he
        have := congrArg List.length he
        simp only [List.length_drop, List.length_nil] at this
        omega
      have hrec := ih (buf.drop MAXWRLEN).length
        (by simp only [List.length_drop, MAXWRLEN] at *; omega)
        (s.words p (buf.take MAXWRLEN)).1 [] _ hd rfl
      have hw := s.words_append p (buf.take MAXWRLEN) (buf.drop MAXWRLEN)
      rw [List.take_append_drop] at hw
      simp only [if_neg hle, hrec, hw]
      simp [List.append_assoc]

theorem Sync.read_newline (h : Sync s d) : Sync s (d.read ['\n']) ∧
    (d.read ['\n']).written = d.written := by
  have hd : d.read ['\n'] = { d with part := [] } := rfl
  rw [hd]
  exact ⟨⟨rfl, h.addr, h.count, h.table⟩, rfl⟩

/-- One call with words in it: the decoder makes exactly the writes it asks for. -/
theorem Sync.read_writev (h : Sync s d) {p : Bool} {buf : List Word} (ha : aligned a)
    (hb : buf ≠ []) (hm : ¬ Misread s a) {s' : State} {out : List Char}
    (hw : s.writev ⟨a, p, buf⟩ = some (s', out)) :
    Sync s' (d.read out) ∧ (d.read out).written = d.written ++ Call.writes a p buf := by
  rw [State.writev, if_pos ha, State.blocks_eq _ _ _ _ hb] at hw
  obtain ⟨rfl, rfl⟩ := Prod.mk.inj (Option.some.inj hw)
  obtain ⟨x, hx, hread⟩ := h.read_encodeAddress ha hm
  obtain ⟨hs, hwr⟩ := (h.moved hx).read_words rfl p buf
  obtain ⟨hn, hnw⟩ := hs.read_newline
  rw [List.map_append, Decoder.read_append, Decoder.read_append, hread]
  exact ⟨hn, hnw.trans hwr⟩

/-- The host, what it has sent so far, and the writes it was asked for. -/
structure Session where
  host : State
  wire : List Char
  asked : List (Word × Word)

def Session.next (t : Session) (c : Call) : Session :=
  match t.host.writev c with
  | some (host, out) => ⟨host, t.wire ++ out, t.asked ++ Call.writes c.a c.p c.buf⟩
  | none => t

structure Session.Init (t : Session) : Prop where
  host : t.host.Initial
  wire : t.wire = []
  asked : t.asked = []

def writevs : System Session Call where
  init := Session.Init
  allowed _ _ := True
  next := Session.next

/-- A call without words is for the address where the last one left off, and no address is
written with the wrong prefix. A call that is not aligned sends nothing. -/
structure Session.Regular (t : Session) (c : Call) : Prop where
  words : aligned c.a → c.buf = [] → t.host.addrSet ∧ c.a = t.host.lastaddr
  address : aligned c.a → ¬ Misread t.host c.a

/-- The decoder is not told more than that its count starts at zero. -/
structure Decoder.Fresh (d : Decoder) : Prop where
  part : d.part = []
  count : d.count = 0
  written : d.written = []

/-- Reading what is on the wire has made the writes asked for, and nothing is out of step. -/
def Session.Recovered (t : Session) (d : Decoder) : Prop :=
  Sync t.host (d.read t.wire) ∧ (d.read t.wire).written = t.asked

theorem Session.Recovered.init {t : Session} (ht : t.Init) (hd : d.Fresh) : t.Recovered d := by
  have hr : d.read t.wire = d := by rw [ht.wire]; rfl
  refine ⟨?_, by rw [hr, hd.written, ht.asked]⟩
  rw [hr]
  exact ⟨hd.part, by simp [ht.host.addrSet], hd.count.trans ht.host.wraddr.symm,
    fun k h => by simp [ht.host.wrloaded, ht.host.wraddr] at h⟩

theorem Session.Recovered.next {t : Session} {c : Call} (h : t.Recovered d) (hc : t.Regular c) :
    (t.next c).Recovered d := by
  obtain ⟨hs, hw⟩ := h
  rw [Session.next]
  cases hv : t.host.writev c with
  | none => exact ⟨hs, hw⟩
  | some r =>
    have ha : aligned c.a := by
      by_contra hna
      simp [State.writev, hna] at hv
    by_cases hb : c.buf = []
    · obtain ⟨hset, hlast⟩ := hc.words ha hb
      have hr : r = (t.host, []) := by
        rw [State.writev, if_pos ha, hb, State.blocks, if_pos rfl, hlast, ← hset] at hv
        exact (Option.some.inj hv).symm
      subst hr
      simp only [Session.Recovered, hb, Call.writes, List.append_nil]
      exact ⟨hs, hw⟩
    · obtain ⟨hs', hw'⟩ := hs.read_writev ha hb (hc.address ha) hv
      refine ⟨?_, ?_⟩
      · rw [Decoder.read_append]
        exact hs'
      · rw [Decoder.read_append, hw', hw]

/-- After any sequence of calls the decoder has made exactly the writes asked for. -/
theorem written_eq_asked {t₀ t : Session} {cs : List Call} (ht : t₀.Init) (hd : d.Fresh)
    (hr : (writevs.restrict Session.Regular).Run t₀ cs t) :
    (d.read t.wire).written = t.asked :=
  (hr.invariant (P := fun t : Session => t.Recovered d) (Session.Recovered.init ht hd)
    fun _ _ h hc => h.next hc.2).2

theorem Session.next_words (t : Session) (a : Word) (p : Bool) (val : Word) (buf : List Word)
    (ha : aligned a) : t.next ⟨a, p, val :: buf⟩ =
      ⟨({ t.host with lastaddr := a, addrSet := true }.words p (val :: buf)).1,
        t.wire ++ ((t.host.encodeAddress a ++
          ({ t.host with lastaddr := a, addrSet := true }.words p (val :: buf)).2).map charenc ++
            ['\n']),
        t.asked ++ Call.writes a p (val :: buf)⟩ := by
  rw [Session.next, State.writev, if_pos ha, State.blocks_eq _ _ _ _ (by simp)]

theorem Session.next_empty (t : Session) (a : Word) (p : Bool) (ha : aligned a) :
    t.next ⟨a, p, []⟩ = { t with host := { t.host with lastaddr := a, addrSet := true } } := by
  rw [Session.next, State.writev, if_pos ha, State.blocks, if_pos rfl]
  simp [Call.writes]

def newSession : Session := ⟨⟨false, 0, false, 0, fun _ => 0⟩, [], []⟩

def newDecoder : Decoder := ⟨[], 0, 0, fun _ => 0, []⟩

theorem newSession_init : newSession.Init := ⟨⟨rfl, rfl, rfl⟩, rfl, rfl⟩

theorem newDecoder_fresh : newDecoder.Fresh := ⟨rfl, rfl, rfl⟩

/-- Two calls; the word of the second one goes out as how far back it was sent. -/
theorem written_eq_asked_twice :
    let t := (newSession.next ⟨0x1000, true, [1, 2]⟩).next ⟨0x2000, false, [1]⟩
    (newDecoder.read t.wire).written = t.asked ∧
      t.asked = [(0x1000, 1), (0x1004, 2), (0x2000, 1)] ∧
      t.wire = "AG0P00001P00002\nAW0G2\n".toList := by
  have h₁ := Session.next_words newSession 0x1000 true 1 [2] (by decide)
  have h₂ := Session.next_words (newSession.next ⟨0x1000, true, [1, 2]⟩) 0x2000 false 1 []
    (by decide)
  have hr₁ := System.Run.snoc (M := writevs.restrict Session.Regular) (s := newSession)
    (t := newSession) (i := ⟨0x1000, true, [1, 2]⟩) .nil
    ⟨trivial, ⟨fun _ h => absurd h (by simp), fun _ h => absurd h.2.2.2 (by decide)⟩⟩
  have hr := System.Run.snoc (i := ⟨0x2000, false, [1]⟩) hr₁
    ⟨trivial, ⟨fun _ h => absurd h (by simp), fun _ h => absurd h.2.2.2 (by decide)⟩⟩
  refine ⟨written_eq_asked newSession_init newDecoder_fresh hr, ?_, ?_⟩
  · rw [h₂, h₁]
    decide
  · rw [h₂, h₁]
    decide

/-- The second call's address is taken as sent, so the third sends none. -/
theorem empty_call_loses_address : ¬ ∀ (t₀ t : Session) (cs : List Call) (d : Decoder),
    t₀.Init → d.Fresh → writevs.Run t₀ cs t → (d.read t.wire).written = t.asked := by
  intro h
  have hr : writevs.Run newSession [⟨0x1000, false, [1]⟩, ⟨0x2000, false, []⟩, ⟨0x2000, false, [2]⟩]
      (((newSession.next ⟨0x1000, false, [1]⟩).next ⟨0x2000, false, []⟩).next
        ⟨0x2000, false, [2]⟩) :=
    .snoc (.snoc (.snoc .nil trivial) trivial) trivial
  have hd := h _ _ _ _ newSession_init newDecoder_fresh hr
  rw [Session.next_words _ 0x1000 _ _ _ (by decide), Session.next_empty _ 0x2000 _ (by decide),
    Session.next_words _ 0x2000 _ _ _ (by decide)] at hd
  revert hd
  decide

end S6Soc.TtyBus
