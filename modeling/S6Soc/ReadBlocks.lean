import Mathlib
import S6Soc.HostReads

/-! `TTYBUS::readv`: the commands it sends for a block of words, and what becomes of them. -/
namespace S6Soc.WbUbus
open Clocked TtyBus

/-- The command to read `len` words. -/
def readcmd (inc : Bool) (len : ℕ) : List Char :=
  if len ≤ 8 then [charenc (BitVec.ofNat 6 (0x20 + (((len - 1) &&& 0x07) <<< 1) + inc.toNat))]
  else [charenc (BitVec.ofNat 6 (0x30 + (((len - 9) >>> 5) &&& 0x0e) + inc.toNat)),
    charenc (BitVec.ofNat 6 ((len - 9) &&& 0x3f))]

/-- `(MAXRDLEN/2>512)?512:MAXRDLEN/2`. -/
def READBLOCK : ℕ := 32

/-- The lengths of the commands that `readv` sends, each when the words before have come. -/
def blocks (len : ℕ) : List ℕ :=
  if _h : len = 0 then []
  else min len READBLOCK :: blocks (len - min len READBLOCK)
termination_by len
decreasing_by exact Nat.sub_lt (Nat.pos_of_ne_zero _h) (by unfold READBLOCK; omega)

/-- `kgVMD2`: the characters of a code from the top down, over what has been left from before. -/
def gathered (stale : BitVec 30) : List (BitVec 6) → Codeword
  | [] => ⟨0, stale⟩
  | [b] => ⟨b, stale⟩
  | [b, c] => ⟨b, c ++ stale.extractLsb' 0 24⟩
  | [b, c, d] => ⟨b, c ++ d ++ stale.extractLsb' 0 18⟩
  | [b, c, d, e] => ⟨b, c ++ d ++ e ++ stale.extractLsb' 0 12⟩
  | [b, c, d, e, f] => ⟨b, c ++ d ++ e ++ f ++ stale.extractLsb' 0 6⟩
  | b :: c :: d :: e :: f :: g :: _ => ⟨b, c ++ d ++ e ++ f ++ g⟩

/-- An address of one to four characters, as it is or to be added: `Me`. -/
def Codeword.Me (w : Codeword) : Word :=
  let n := w.first.extractLsb' 0 3
  if n = 0 then (w.rest.extractLsb' 24 6).setWidth 32
  else if n = 2 then (w.rest.extractLsb' 18 12).setWidth 32
  else if n = 4 then (w.rest.extractLsb' 12 18).setWidth 32
  else if n = 6 then (w.rest.extractLsb' 6 24).setWidth 32
  else if n = 1 then (w.rest.extractLsb' 24 6).signExtend 32
  else if n = 3 then (w.rest.extractLsb' 18 12).signExtend 32
  else if n = 5 then (w.rest.extractLsb' 12 18).signExtend 32
  else (w.rest.extractLsb' 6 24).signExtend 32

/-- The length of a read: `Ne`. -/
def Codeword.Ne (w : Codeword) : BitVec 10 :=
  if !w.first.getLsbD 4 then 1 + (w.first.extractLsb' 1 3).setWidth 10
  else 9 + (w.first.extractLsb' 1 3 ++ w.rest.extractLsb' 24 6).setWidth 10

/-- `BeVMD2`, `Oe` being the word that a code for an earlier one finds in the table. -/
def expanded (Oe : Word) (w : Codeword) : Codeword :=
  let inc := BitVec.ofBool w.inc
  if w.first = 46 then w
  else if w.first.extractLsb' 3 3 = 1 then
    if w.inc then ⟨(1 : BitVec 3) ++ w.Me.extractLsb' 30 2 ++ (1 : BitVec 1), w.Me.extractLsb' 0 30⟩
    else ⟨(0 : BitVec 4) ++ w.Me.extractLsb' 30 2, w.Me.extractLsb' 0 30⟩
  else if w.first.extractLsb' 3 3 = 2 then
    ⟨(3 : BitVec 3) ++ Oe.extractLsb' 30 2 ++ inc, Oe.extractLsb' 0 30⟩
  else if w.first.getLsbD 5 then ⟨(24 : BitVec 5) ++ inc, (0 : BitVec 20) ++ w.Ne⟩
  else w

/-- What `wbubus` makes of the command to read `len` words. -/
def IsReadcmd (inc : Bool) (len : ℕ) (w : Codeword) : Prop :=
  ∃ stale Oe, w = expanded Oe (gathered stale ((readcmd inc len).filterMap chardec))

variable {inc : Bool} {len : ℕ} {w : Codeword}

theorem expanded_read (Oe : Word) (hbit : w.first.getLsbD 5) (hw : w.first ≠ 46) :
    (expanded Oe w).reads = w.Ne.toNat := by
  have hkinds := (by decide : ∀ b : BitVec 6, b.getLsbD 5 = true →
    b.extractLsb' 3 3 ≠ 1 ∧ b.extractLsb' 3 3 ≠ 2) _ hbit
  have hread : expanded Oe w =
      ⟨(24 : BitVec 5) ++ BitVec.ofBool w.inc, (0 : BitVec 20) ++ w.Ne⟩ := by
    unfold expanded
    rw [if_neg hw, if_neg hkinds.1, if_neg hkinds.2, if_pos hbit]
  have hfour : ∀ b : Bool, ((24 : BitVec 5) ++ BitVec.ofBool b).extractLsb' 4 2 = 3 := by decide
  have hcount : ((0 : BitVec 20) ++ w.Ne).extractLsb' 0 10 = w.Ne :=
    BitVec.extractLsb'_append_eq_right
  rw [hread, Codeword.reads, if_pos (hfour _), Codeword.count, hcount]

theorem short_command : ∀ (inc : Bool) (n : Fin 8),
    let b := BitVec.ofNat 6 (0x20 + (((n.val + 1 - 1) &&& 0x07) <<< 1) + inc.toNat)
    b.getLsbD 5 = true ∧ b.getLsbD 4 = false ∧
      (b = 46 ↔ inc = false ∧ n.val + 1 = 8) ∧
      ((1 : BitVec 10) + (b.extractLsb' 1 3).setWidth 10).toNat = n.val + 1 := by
  decide

theorem long_command : ∀ (inc : Bool) (n : Fin 511),
    let b := BitVec.ofNat 6 (0x30 + (((n.val + 9 - 9) >>> 5) &&& 0x0e) + inc.toNat)
    let c := BitVec.ofNat 6 ((n.val + 9 - 9) &&& 0x3f)
    b.getLsbD 5 = true ∧ b.getLsbD 4 = true ∧ b ≠ 46 ∧
      ((9 : BitVec 10) + (b.extractLsb' 1 3 ++ c).setWidth 10).toNat = n.val + 9 := by
  decide +kernel

theorem short_readcmd (inc : Bool) (n : Fin 8) : ∃ b : BitVec 6,
    readcmd inc (n.val + 1) = [charenc b] ∧ b.getLsbD 5 = true ∧ b.getLsbD 4 = false ∧
      (b = 46 ↔ inc = false ∧ n.val + 1 = 8) ∧
      ((1 : BitVec 10) + (b.extractLsb' 1 3).setWidth 10).toNat = n.val + 1 :=
  ⟨_, if_pos n.isLt, short_command inc n⟩

theorem long_readcmd (inc : Bool) (n : Fin 511) : ∃ b c : BitVec 6,
    readcmd inc (n.val + 9) = [charenc b, charenc c] ∧ b.getLsbD 5 = true ∧
      b.getLsbD 4 = true ∧ b ≠ 46 ∧
      ((9 : BitVec 10) + (b.extractLsb' 1 3 ++ c).setWidth 10).toNat = n.val + 9 :=
  ⟨_, _, if_neg (by omega), long_command inc n⟩

theorem reads_short {b : BitVec 6} (stale : BitVec 30) (Oe : Word) (hbit : b.getLsbD 5)
    (hfour : b.getLsbD 4 = false) (hb : b ≠ 46) : (expanded Oe (gathered stale [b])).reads =
      ((1 : BitVec 10) + (b.extractLsb' 1 3).setWidth 10).toNat := by
  have hread := expanded_read (w := ⟨b, stale⟩) Oe hbit hb
  have hNe : Codeword.Ne ⟨b, stale⟩ = 1 + (b.extractLsb' 1 3).setWidth 10 := by
    refine if_pos ?_
    change (!b.getLsbD 4) = true
    rw [hfour]
    rfl
  rw [hNe] at hread
  exact hread

theorem reads_long {b : BitVec 6} (c : BitVec 6) (stale : BitVec 30) (Oe : Word)
    (hbit : b.getLsbD 5) (hfour : b.getLsbD 4) (hb : b ≠ 46) :
    (expanded Oe (gathered stale [b, c])).reads =
      ((9 : BitVec 10) + (b.extractLsb' 1 3 ++ c).setWidth 10).toNat := by
  have hread := expanded_read (w := ⟨b, c ++ stale.extractLsb' 0 24⟩) Oe hbit hb
  have hc : (c ++ stale.extractLsb' 0 24).extractLsb' 24 6 = c :=
    BitVec.extractLsb'_append_eq_left
  have hNe : Codeword.Ne ⟨b, c ++ stale.extractLsb' 0 24⟩ =
      9 + (b.extractLsb' 1 3 ++ c).setWidth 10 := by
    refine (if_neg ?_).trans (congrArg (fun d => 9 + (b.extractLsb' 1 3 ++ d).setWidth 10) hc)
    change ¬ (!b.getLsbD 4) = true
    rw [hfour]
    decide
  rw [hNe] at hread
  exact hread

/-- The command for eight words from one address is the code that ends a write. -/
theorem reads_readcmd (hw : IsReadcmd inc len w) (hpos : 0 < len) (hlen : len < 520) :
    w.reads = if inc = false ∧ len = 8 then 0 else len := by
  obtain ⟨stale, Oe, rfl⟩ := hw
  rcases Nat.lt_or_ge 8 len with hlong | hshort
  · obtain ⟨n, rfl⟩ : ∃ n : Fin 511, len = n.val + 9 :=
      ⟨⟨len - 9, by omega⟩, (Nat.sub_add_cancel hlong).symm⟩
    obtain ⟨b, c, hcmd, hbit, hfour, hb, hNe⟩ := long_readcmd inc n
    rw [hcmd, if_neg (by omega)]
    simp only [List.filterMap_cons, chardec_charenc, List.filterMap_nil]
    rw [reads_long c stale Oe hbit hfour hb, hNe]
  · obtain ⟨n, rfl⟩ : ∃ n : Fin 8, len = n.val + 1 :=
      ⟨⟨len - 1, by omega⟩, (Nat.sub_add_cancel hpos).symm⟩
    obtain ⟨b, hcmd, hbit, hfour, hend, hNe⟩ := short_readcmd inc n
    rw [hcmd]
    simp only [List.filterMap_cons, chardec_charenc, List.filterMap_nil]
    by_cases h8 : inc = false ∧ n.val + 1 = 8
    · have hsame : expanded Oe (gathered stale [b]) = ⟨b, stale⟩ := if_pos (hend.mpr h8)
      have hnot : b.extractLsb' 4 2 ≠ 3 := by
        rw [hend.mpr h8]
        decide
      rw [if_pos h8, hsame]
      exact if_neg hnot
    · rw [if_neg h8, reads_short stale Oe hbit hfour (fun h => h8 (hend.mp h)), hNe]

theorem blocks_pos (h : 0 < len) :
    blocks len = min len READBLOCK :: blocks (len - min len READBLOCK) := by
  rw [blocks, dif_neg h.ne']

/-- One block after the other, up to the last. -/
theorem total_blocks {ws : List Codeword} (h : List.Forall₂ (IsReadcmd inc) (blocks len) ws) :
    total ws = if inc = false ∧ len % READBLOCK = 8 then len - 8 else len := by
  induction len using Nat.strong_induction_on generalizing ws with
  | _ len ih =>
    rcases Nat.eq_zero_or_pos len with rfl | hpos
    · rw [blocks, dif_pos rfl] at h
      rw [List.forall₂_nil_left_iff.mp h]
      simp [total, READBLOCK]
    · rw [blocks_pos hpos] at h
      obtain ⟨w, vs, hw, hvs, rfl⟩ := List.forall₂_cons_left_iff.mp h
      have hmin : min len READBLOCK ≤ 32 := Nat.min_le_right ..
      have hone : 0 < min len READBLOCK := by unfold READBLOCK; omega
      have hreads := reads_readcmd hw hone (by omega)
      have hrest := ih (len - min len READBLOCK) (by omega) hvs
      have hsum : total (w :: vs) = w.reads + total vs := by simp [total]
      rw [hsum, hreads, hrest]
      unfold READBLOCK at *
      rcases Nat.lt_or_ge len 32 with hlt | hge
      · rw [Nat.min_eq_left hlt.le, Nat.sub_self, Nat.mod_eq_of_lt hlt]
        split_ifs <;> omega
      · rw [Nat.min_eq_right hge, ← Nat.mod_eq_sub_mod hge]
        split_ifs <;> omega

theorem length_heard (x : Script) (ws : List Codeword) (vs : List Word) (h : vs.length = total ws) :
    (x.heard ws vs).length = vs.length := by
  induction ws generalizing x vs with
  | nil => exact h.symm
  | cons w ws ih =>
    have hsum : vs.length = w.reads + total ws := by simpa [total] using h
    have hrest : (vs.drop w.reads).length = total ws := by
      rw [List.length_drop, hsum]
      exact Nat.add_sub_cancel_left ..
    rw [Script.heard, List.length_append, List.length_mapIdx, ih _ _ hrest, List.length_take,
      List.length_drop]
    omega

variable {t : Hosted} {vs ws : List Codeword}

/-- Of the words `readv` reads it gets all, whatever the bus and the serial port do, but where
the last command it sends is the one for eight words from one address: these do not come, and it
waits for them. -/
theorem readv_words (h : hosted.Reachable t) (hq : t.Quiet) (hobeyed : t.bus.obeyed = vs ++ ws)
    (hsent : List.Forall₂ (IsReadcmd inc) (blocks len) ws) (s : Reader)
    (hline : s.line = t.way.line.sent.map hostChar) : s.readwords.length =
      total vs + if inc = false ∧ len % READBLOCK = 8 then len - 8 else len := by
  obtain ⟨x, -, -, -, hall⟩ := (Hosted.kept_of_reachable h).heard s hline
  obtain ⟨-, hanswers, hwords⟩ := hall hq
  have hsum : total t.bus.obeyed = total vs + total ws := by
    rw [hobeyed]
    simp [total]
  rw [hwords, length_heard x _ _ hanswers, hanswers, hsum, total_blocks hsent]

/-- The address, and the command for eight words from there. -/
def hostEight : List HostClock :=
  [⟨⟨false, true, ⟨0, 0x100⟩, false, false, false, 0⟩, false, false⟩,
    ⟨⟨false, true, ⟨46, 0⟩, false, false, false, 0⟩, false, false⟩] ++
    List.replicate 10 ⟨⟨false, false, ⟨0, 0⟩, false, false, false, 0⟩, false, false⟩

def askedEight : Hosted := hostEight.foldl hosted.next newHosted

theorem reachable_askedEight : hosted.Reachable askedEight := by
  have ha : hosted.Admits newHosted hostEight := by decide +kernel
  unfold askedEight
  exact reachable_newHosted.foldl ha

theorem quiet_askedEight : askedEight.Quiet :=
  ⟨by decide +kernel, by decide +kernel, ⟨by decide +kernel, by decide +kernel,
    by decide +kernel, ⟨by decide +kernel, by decide +kernel, by decide +kernel⟩⟩⟩

theorem blocks_short (hpos : 0 < len) (h : len ≤ READBLOCK) : blocks len = [len] := by
  rw [blocks_pos hpos, Nat.min_eq_left h, Nat.sub_self, blocks, dif_pos rfl]

/-- Three words that come, and eight that do not. -/
theorem readv_words_threeAndEight :
    (Reader.initial (heardThree.way.line.sent.map hostChar)).readwords.length = 3 ∧
      (Reader.initial (askedEight.way.line.sent.map hostChar)).readwords.length = 0 := by
  constructor
  · have hcmd : IsReadcmd true 3 ⟨49, 3⟩ := ⟨0, 0, by decide⟩
    have hsent : List.Forall₂ (IsReadcmd true) (blocks 3) [⟨49, 3⟩] := by
      rw [blocks_short (by decide) (by decide)]
      exact .cons hcmd .nil
    have hobeyed : heardThree.bus.obeyed = [⟨0, 0x100⟩] ++ [⟨49, 3⟩] := obeyed_heardThree
    exact readv_words reachable_heardThree quiet_heardThree hobeyed hsent _
      (line_initial heardThree)
  · have hcmd : IsReadcmd false 8 ⟨46, 0⟩ := ⟨0, 0, by decide⟩
    have hobeyed : askedEight.bus.obeyed = [⟨0, 0x100⟩] ++ [⟨46, 0⟩] := by decide +kernel
    have hsent : List.Forall₂ (IsReadcmd false) (blocks 8) [⟨46, 0⟩] := by
      rw [blocks_short (by decide) (by decide)]
      exact .cons hcmd .nil
    exact readv_words reachable_askedEight quiet_askedEight hobeyed hsent _
      (line_initial askedEight)

end S6Soc.WbUbus
