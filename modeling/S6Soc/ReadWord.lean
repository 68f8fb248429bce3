import Mathlib
import S6Soc.ReplyLine

/-! `TTYBUS::readword`: the host reads word after word of what `wbubus` has sent. -/
namespace S6Soc.WbUbus
open TtyBus

/-- The reports that make a call of the host throw. -/
def Report.fails : Report → Bool
  | .status .reset | .status .error => true
  | _ => false

/-- The host's address after a report. -/
def Report.after (lastaddr : Word) : Report → Word
  | .data inc _ => lastaddr + if inc then 4 else 0
  | .address a => a <<< 2
  | .status _ => lastaddr

/-- The word a report has for the host, with the address after it. -/
def Report.word (lastaddr : Word) : Report → List (Word × Word)
  | .data inc v => [(v, lastaddr + if inc then 4 else 0)]
  | _ => []

/-- The words among the reports, up to a failure. -/
def words (lastaddr : Word) : List Report → List (Word × Word)
  | [] => []
  | r :: rs => r.word lastaddr ++ if r.fails then [] else words (r.after lastaddr) rs

end S6Soc.WbUbus

namespace S6Soc.TtyBus

/-- The value of a word whose code is in the buffer; `val` is left from before. -/
def Reader.value (s : Reader) (sixbits : BitVec 6) (val : Word) : Word :=
  if sixbits &&& 0x3e = 0x06 then s.readtbl (s.rdaddr - 1)
  else if sixbits &&& 0x30 = 0x10 then
    s.readtbl (s.rdaddr - ((((s.sixbits 0 >>> 1) &&& 0x07).setWidth 10 <<< 6 |||
      (s.sixbits 1).setWidth 10) + 2 + 8))
  else if sixbits &&& 0x30 = 0x20 then
    s.readtbl (s.rdaddr - (((sixbits >>> 1) &&& 0x07).setWidth 10 + 2))
  else if sixbits &&& 0x38 = 0x38 then
    TtyBus.gather (((s.sixbits 0 >>> 1) &&& 0x03).setWidth 32)
      ((List.range 5).map fun k => s.sixbits (k + 1))
  else val

/-- An address in the buffer. The first character of a short one is taken as it comes. -/
def Reader.address (s : Reader) (sixbits : BitVec 6) : Word :=
  if sixbits &&& 0x3c = 0x08 then
    TtyBus.gather ((s.sixbits 0 &&& 0x03).setWidth 32)
      ((List.range 5).map fun k => s.sixbits (k + 1))
  else
    TtyBus.gather (((chardec (s.buf 1)).map (BitVec.setWidth 32)).getD 0x100)
      ((List.range (sixbits &&& 0x03).toNat).map fun k => s.sixbits (k + 2))

/-- How one turn of the loop of `readword` ends. -/
inductive WordTurn where
  | again (val : Word) (s : Reader)
  | returned (v : Word) (s : Reader)
  | threw (s : Reader)
  | waits

/-- What a whole code brings about. -/
def Reader.wordAct (s : Reader) (sixbits : BitVec 6) (val : Word) : WordTurn :=
  if sixbits < 6 then
    if sixbits = 3 ∨ sixbits = 5 then .threw { s with busErr := true }
    else if sixbits = 4 then .again val { s with interruptFlag := true }
    else .again val s
  else if isAddress sixbits then
    .again (s.address sixbits) { s with lastaddr := s.address sixbits <<< 2 }
  else .returned (s.value sixbits val) (s.found sixbits)

def Reader.wordTurn (s : Reader) (val : Word) : WordTurn :=
  if s.line = [] then .waits
  else
    let first := s.lclreadcode 0 1
    if first.1 = 0 then .again val first.2
    else
      let sixbits := first.2.sixbits 0
      let n := replyLength sixbits
      if n = 1 then first.2.wordAct sixbits val
      else
        match first.2.gather 1 n with
        | none => .waits
        | some s => s.wordAct sixbits val

variable {s t : Reader} {nr n : ℕ} {val : Word} {x : BitVec 6}

def WordTurn.Leaves (t : Reader) : WordTurn → Prop
  | .again _ s => s = t
  | .returned _ s => s = t
  | .threw s => s = t
  | .waits => False

theorem Reader.found_line (s : Reader) (x : BitVec 6) : (s.found x).line = s.line := by
  unfold Reader.found
  split_ifs <;> rfl

theorem Reader.wordAct_line (h : (s.wordAct x val).Leaves t) : t.line = s.line := by
  unfold Reader.wordAct at h
  split_ifs at h <;> rw [← show _ = t from h]
  exact s.found_line x

theorem Reader.gather_line (h : s.gather nr n = some t) : t.line.length ≤ s.line.length := by
  fun_induction Reader.gather s nr n with
  | case1 => cases h
  | case2 s nr hline r hlt ih =>
    refine (ih h).trans ?_
    simp only [r, Reader.lclreadcode, List.length_drop]
    exact Nat.sub_le ..
  | case3 s nr hline r hge =>
    cases h
    simp only [r, Reader.lclreadcode, List.length_drop]
    exact Nat.sub_le ..

theorem Reader.wordTurn_shorter (h : (s.wordTurn val).Leaves t) :
    t.line.length < s.line.length := by
  unfold Reader.wordTurn at h
  split_ifs at h with hline
  · exact h.elim
  obtain ⟨a, rest, hcons⟩ := List.exists_cons_of_ne_nil hline
  have hfirst : (s.lclreadcode 0 1).2.line.length < s.line.length := by
    rw [lclreadcode_cons hcons, hcons]
    exact Nat.lt_succ_self _
  dsimp only at h
  split_ifs at h
  · exact (show _ = t from h) ▸ hfirst
  · rw [wordAct_line h]
    exact hfirst
  · cases hg : (s.lclreadcode 0 1).2.gather 1 (replyLength ((s.lclreadcode 0 1).2.sixbits 0)) with
    | none =>
      rw [hg] at h
      exact h.elim
    | some u =>
      rw [hg] at h
      rw [wordAct_line h]
      exact Nat.lt_of_le_of_lt (gather_line hg) hfirst

/-- How a call ends. -/
inductive Answer where
  | returned (v : Word) (s : Reader)
  | threw (s : Reader)
  | waits

def Reader.readword (s : Reader) (val : Word) : Answer :=
  match _h : s.wordTurn val with
  | .again val t => t.readword val
  | .returned v t => .returned v t
  | .threw t => .threw t
  | .waits => .waits
termination_by s.line.length
decreasing_by exact wordTurn_shorter (by rw [_h]; rfl)

theorem Reader.readword_again {v : Word} (h : s.wordTurn val = .again v t) :
    s.readword val = t.readword v := by
  rw [Reader.readword]
  split <;> simp_all

theorem Reader.readword_returned {v : Word} (h : s.wordTurn val = .returned v t) :
    s.readword val = .returned v t := by
  rw [Reader.readword]
  split <;> simp_all

theorem Reader.readword_threw (h : s.wordTurn val = .threw t) : s.readword val = .threw t := by
  rw [Reader.readword]
  split <;> simp_all

theorem Reader.readword_waits (h : s.wordTurn val = .waits) : s.readword val = .waits := by
  rw [Reader.readword]
  split <;> simp_all

theorem Reader.readword_shorter (v : Word) (h : s.readword val = .returned v t) :
    t.line.length < s.line.length := by
  fun_induction Reader.readword s val with
  | case1 s val w u hu ih => exact (ih h).trans (wordTurn_shorter (by rw [hu]; rfl))
  | case2 s val w u hu =>
    cases h
    exact wordTurn_shorter (by rw [hu]; rfl)
  | case3 => cases h
  | case4 => cases h

/-- One call after the other, as long as they return: the words, each with `m_lastaddr`. -/
def Reader.readwords (s : Reader) : List (Word × Word) :=
  match _h : s.readword 0 with
  | .returned v t => (v, t.lastaddr) :: t.readwords
  | .threw _ => []
  | .waits => []
termination_by s.line.length
decreasing_by exact readword_shorter v _h

theorem Reader.readwords_returned {v : Word} (h : s.readword 0 = .returned v t) :
    s.readwords = (v, t.lastaddr) :: t.readwords := by
  rw [Reader.readwords]
  split <;> simp_all

theorem Reader.readwords_threw (h : s.readword 0 = .threw t) : s.readwords = [] := by
  rw [Reader.readwords]
  split <;> simp_all

theorem Reader.readwords_waits (h : s.readword 0 = .waits) : s.readwords = [] := by
  rw [Reader.readwords]
  split <;> simp_all

theorem isCode_charenc (c : BitVec 6) : isCode (charenc c) := by
  rw [isCode, chardec_charenc]
  rfl

theorem lclreadcode_all {xs : List Char} (h : ∀ ch ∈ xs, isCode ch) :
    TtyBus.lclreadcode xs = (xs, xs.length) := by
  refine Prod.ext (List.ext_getElem? fun k => ?_) ?_
  · exact (lclreadcode_compacting xs).leading k fun ch hc => h ch (List.mem_of_mem_take hc)
  · rw [lclreadcode_ret, List.filter_eq_self.mpr h]

/-- The characters `bs` are in the buffer. -/
def Reader.Holds (s : Reader) (bs : List (BitVec 6)) : Prop :=
  ∀ (k : ℕ) (c : BitVec 6), bs[k]? = some c → s.buf k = charenc c

theorem Reader.Holds.sixbits {bs : List (BitVec 6)} (h : s.Holds bs) {k : ℕ} {c : BitVec 6}
    (hk : bs[k]? = some c) : s.sixbits k = c := by
  rw [Reader.sixbits, h k c hk, chardec_charenc]
  rfl

/-- Only the line and the buffer have changed. -/
structure Reader.Same (s t : Reader) : Prop where
  readtbl : t.readtbl = s.readtbl
  rdaddr : t.rdaddr = s.rdaddr
  lastaddr : t.lastaddr = s.lastaddr

theorem Reader.gather_whole {bs : List (BitVec 6)} {b : BitVec 6} {line : List Char}
    (hb : s.Holds [b]) (hline : s.line = bs.map charenc ++ line) (hn : bs.length + 1 = n)
    (hpos : bs ≠ []) :
    ∃ t, s.gather 1 n = some t ∧ t.line = line ∧ s.Same t ∧ t.Holds (b :: bs) := by
  have hlen : (bs.map charenc).length = n - 1 := by
    rw [List.length_map]
    omega
  have htake : s.line.take (n - 1) = bs.map charenc := by
    rw [hline, List.take_left' hlen]
  have hread : TtyBus.lclreadcode (s.line.take (n - 1)) = (bs.map charenc, n - 1) := by
    rw [htake, lclreadcode_all, hlen]
    intro ch hc
    obtain ⟨c, -, rfl⟩ := List.mem_map.mp hc
    exact isCode_charenc c
  have hne : s.line ≠ [] := by
    rw [hline]
    simp [hpos]
  have hstop : ¬ 1 + (s.lclreadcode 1 (n - 1)).1 < n := by
    simp only [Reader.lclreadcode, hread]
    omega
  refine ⟨(s.lclreadcode 1 (n - 1)).2, ?_, ?_, ⟨rfl, rfl, rfl⟩, fun k c hk => ?_⟩
  · rw [Reader.gather, if_neg hne]
    exact if_neg hstop
  · simp only [Reader.lclreadcode, hline, List.drop_left' hlen]
  · simp only [Reader.lclreadcode, hread]
    cases k with
    | zero =>
      rw [if_neg (by omega)]
      exact hb 0 c hk
    | succ k =>
      have hk' : bs[k]? = some c := hk
      have hlt : k < bs.length := (List.getElem?_eq_some_iff.mp hk').1
      rw [if_pos (by omega), List.getD_eq_getElem?_getD]
      simp [hk']

theorem Reader.gather_short (h : s.line.length < n - 1) : s.gather 1 n = none := by
  by_cases hline : s.line = []
  · rw [Reader.gather, if_pos hline]
  · have hle : (s.lclreadcode 1 (n - 1)).1 ≤ s.line.length :=
      (TtyBus.lclreadcode_le _).trans (List.length_take_le' ..)
    have hrest : (s.lclreadcode 1 (n - 1)).2.line = [] := by
      simp only [Reader.lclreadcode]
      exact List.drop_eq_nil_of_le h.le
    rw [Reader.gather, if_neg hline]
    refine (if_pos (by omega)).trans ?_
    rw [Reader.gather, if_pos hrest]

/-- A code whose characters are all there is read whole. -/
theorem Reader.wordTurn_code {b : BitVec 6} {bs : List (BitVec 6)} {line : List Char}
    (hline : s.line = (b :: bs).map charenc ++ line) (hlen : bs.length + 1 = replyLength b)
    (val : Word) : ∃ t, s.wordTurn val = t.wordAct b val ∧ t.line = line ∧ s.Same t ∧
      t.Holds (b :: bs) := by
  have hcons : s.line = charenc b :: (bs.map charenc ++ line) := hline
  have hfirst := lclreadcode_cons hcons
  rw [if_pos (isCode_charenc b)] at hfirst
  have hne : s.line ≠ [] := by
    rw [hline]
    exact List.cons_ne_nil _ _
  generalize hu : ({ s with
    line := bs.map charenc ++ line
    buf := Function.update s.buf 0 (charenc b) } : Reader) = u at hfirst
  have hb : u.Holds [b] := by
    intro k c hk
    cases k with
    | zero =>
      cases hk
      simp [← hu]
    | succ k => cases hk
  have hsix : u.sixbits 0 = b := hb.sixbits rfl
  have hline' : u.line = bs.map charenc ++ line := by rw [← hu]
  have hsame : s.Same u := by
    rw [← hu]
    exact ⟨rfl, rfl, rfl⟩
  have hturn : s.wordTurn val = if replyLength b = 1 then u.wordAct b val else
      match u.gather 1 (replyLength b) with
      | none => .waits
      | some s => s.wordAct b val := by
    unfold Reader.wordTurn
    rw [if_neg hne, hfirst]
    dsimp only
    rw [if_neg (by decide), hsix]
  rw [hturn]
  by_cases hone : replyLength b = 1
  · have hnil : bs = [] := List.eq_nil_of_length_eq_zero (by omega)
    subst hnil
    exact ⟨u, if_pos hone, hline', hsame, hb⟩
  · have hpos : bs ≠ [] := by
      rintro rfl
      exact hone hlen.symm
    obtain ⟨t, hg, ht, hst, hh⟩ := gather_whole hb hline' hlen hpos
    rw [if_neg hone, hg]
    exact ⟨t, rfl, ht, ⟨hst.1.trans hsame.1, hst.2.trans hsame.2, hst.3.trans hsame.3⟩, hh⟩

/-- One of which characters are missing is waited for. -/
theorem Reader.wordTurn_waits {b : BitVec 6} {bs : List (BitVec 6)}
    (hline : s.line = (b :: bs).map charenc) (hlen : bs.length + 1 < replyLength b)
    (val : Word) : s.wordTurn val = .waits := by
  have hcons : s.line = charenc b :: bs.map charenc := hline
  have hfirst := lclreadcode_cons hcons
  rw [if_pos (isCode_charenc b)] at hfirst
  have hne : s.line ≠ [] := by
    rw [hline]
    exact List.cons_ne_nil _ _
  unfold Reader.wordTurn
  rw [if_neg hne, hfirst]
  dsimp only
  have hsix : ({ s with line := bs.map charenc, buf := Function.update s.buf 0 (charenc b) }
      : Reader).sixbits 0 = b := by
    simp [Reader.sixbits, chardec_charenc]
  rw [if_neg (by decide), hsix, if_neg (by omega), gather_short]
  simp only [List.length_map]
  omega

open WbUbus Clocked

theorem sixes_shift (x : BitVec 30) {k : ℕ} (h : 6 ≤ k) (h' : k ≤ 24) :
    (x.extractLsb' 0 24 ++ x.extractLsb' 0 6).extractLsb' k 6 = x.extractLsb' (k - 6) 6 := by
  rw [BitVec.extractLsb'_append_eq_of_le h, BitVec.extractLsb'_extractLsb'_of_le (by omega)]

theorem sixes_eq (x : BitVec 30) {n : ℕ} (hn : n ≤ 5) :
    sixes x n = (List.range n).map fun k => x.extractLsb' (24 - 6 * k) 6 := by
  induction n generalizing x with
  | zero => rfl
  | succ n ih =>
    rw [sixes, ih _ (by omega), List.range_succ_eq_map, List.map_cons, List.map_map]
    refine congrArg (x.extractLsb' 24 6 :: ·) (List.map_congr_left fun k hk => ?_)
    have hlt : k < n := List.mem_range.mp hk
    rw [sixes_shift x (by omega) (by omega), Function.comp_apply]
    exact congrArg (fun j => x.extractLsb' j 6) (by omega)

theorem length_chars (w : Codeword) (h : w.first.extractLsb' 3 3 ≠ 6) :
    w.chars.length = replyLength w.first := by
  have hall : ∀ b : BitVec 6, b.extractLsb' 3 3 ≠ 6 →
      replyLength b = (Codeword.length ⟨b, 0⟩).toNat ∧
        (Codeword.length ⟨b, 0⟩).toNat - 1 ≤ 5 ∧ 0 < (Codeword.length ⟨b, 0⟩).toNat := by decide
  obtain ⟨hlen, hfive, hpos⟩ := hall w.first h
  change _ = w.length.toNat at hlen
  change w.length.toNat - 1 ≤ 5 at hfive
  change 0 < w.length.toNat at hpos
  rw [hlen, Codeword.chars, List.length_cons, sixes_eq _ hfive, List.length_map, List.length_range]
  omega

/-- Characters joined to what there is already. -/
theorem gather_append {m : ℕ} (x : BitVec m) (c : BitVec 6) (cs : List (BitVec 6)) :
    gather (x.setWidth 32) (c :: cs) = gather ((x ++ c).setWidth 32) cs := by
  have hx : x.setWidth 32 <<< 6 ||| c.setWidth 32 = (x ++ c).setWidth 32 := by
    apply BitVec.eq_of_getLsbD_eq
    intro i hi
    simp only [BitVec.getLsbD_or, BitVec.getLsbD_shiftLeft, BitVec.getLsbD_setWidth,
      BitVec.getLsbD_append]
    by_cases h6 : i < 6
    · simp [h6, hi]
    · simp [h6, hi, BitVec.getLsbD_of_ge c i (by omega), show i - 6 < 32 by omega]
  rw [gather, List.foldl_cons, hx, gather]

/-- The host has the listener's table. -/
structure Reader.Follows (s : Reader) (l : Listener) : Prop where
  readtbl : s.readtbl = l.table
  rdaddr : s.rdaddr = l.wr

variable {w : Codeword} {l : Listener}

theorem Reader.Holds.char (h : s.Holds w.chars) {k : ℕ} (hk : k < w.length.toNat - 1)
    (h5 : w.length.toNat - 1 ≤ 5) : s.sixbits (k + 1) = w.rest.extractLsb' (24 - 6 * k) 6 := by
  refine h.sixbits ?_
  rw [Codeword.chars, List.getElem?_cons_succ, sixes_eq _ h5]
  simp [hk]

theorem Reader.Holds.five (h : s.Holds w.chars) (hl : w.length = 6) :
    (List.range 5).map (fun k => s.sixbits (k + 1)) = [w.rest.extractLsb' 24 6,
      w.rest.extractLsb' 18 6, w.rest.extractLsb' 12 6, w.rest.extractLsb' 6 6,
      w.rest.extractLsb' 0 6] := by
  have hchar : ∀ k < 5, s.sixbits (k + 1) = w.rest.extractLsb' (24 - 6 * k) 6 := fun k hk =>
    h.char (by rw [hl]; exact hk) (by rw [hl]; decide)
  rw [List.map_congr_left fun k hk => hchar k (List.mem_range.mp hk)]
  rfl

theorem gather_rest (x : BitVec 2) (v : BitVec 30) :
    gather (x.setWidth 32) [v.extractLsb' 24 6, v.extractLsb' 18 6, v.extractLsb' 12 6,
      v.extractLsb' 6 6, v.extractLsb' 0 6] = x ++ v := by
  have hx : (x ++ v).extractLsb' 30 2 = x := BitVec.extractLsb'_append_eq_left
  have hv : ∀ k, k + 6 ≤ 30 → TtyBus.sixbits (x ++ v) k = v.extractLsb' k 6 := fun k hk =>
    BitVec.extractLsb'_append_eq_of_add_le hk
  have h := gather_raw (x ++ v)
  rwa [hx, hv 24 (by decide), hv 18 (by decide), hv 12 (by decide), hv 6 (by decide),
    hv 0 (by decide)] at h

/-- An address code is read as the listener reads it. -/
theorem Reader.Holds.address (h : s.Holds w.chars) (hk : w.first.extractLsb' 2 4 = 2) :
    s.address w.first = w.address := by
  have hall : ∀ b : BitVec 6, b.extractLsb' 2 4 = 2 → b &&& 0x3c = 0x08 ∧
      b &&& 0x03 = (b.extractLsb' 0 2).setWidth 6 ∧ Codeword.length ⟨b, 0⟩ = 6 := by decide
  obtain ⟨hkind, hlow, hlen⟩ := hall _ hk
  rw [Reader.address, if_pos hkind, h.five hlen, h.sixbits rfl, hlow]
  have hw : ((w.first.extractLsb' 0 2).setWidth 6).setWidth 32 =
      (w.first.extractLsb' 0 2).setWidth 32 :=
    (by decide : ∀ x : BitVec 2, (x.setWidth 6).setWidth 32 = x.setWidth 32) _
  rw [hw, gather_rest, Codeword.address]

theorem extract_append {n m : ℕ} (x : BitVec n) (k : ℕ) :
    x.extractLsb' (k + 6) m ++ x.extractLsb' k 6 = x.extractLsb' k (m + 6) :=
  BitVec.extractLsb'_append_extractLsb'_eq_extractLsb' (Nat.add_comm k 6 ▸ rfl)

theorem Reader.Holds.shortAddress (h : s.Holds w.chars) (hk : w.first.extractLsb' 2 4 = 3) :
    s.address w.first = w.shortAddress := by
  have hall : ∀ b : BitVec 6, b.extractLsb' 2 4 = 3 → b &&& 0x3c ≠ 0x08 ∧
      (b &&& 0x03).toNat = (b.extractLsb' 0 2).toNat ∧
      (Codeword.length ⟨b, 0⟩).toNat = (b.extractLsb' 0 2).toNat + 2 := by decide
  obtain ⟨hkind, hlow, hlen⟩ := hall _ hk
  change w.length.toNat = _ at hlen
  have hlt := (w.first.extractLsb' 0 2).isLt
  have hchar : ∀ k ≤ (w.first.extractLsb' 0 2).toNat,
      s.sixbits (k + 1) = w.rest.extractLsb' (24 - 6 * k) 6 := fun k hk =>
    h.char (by omega) (by omega)
  have hfirst : ((chardec (s.buf 1)).map (BitVec.setWidth 32)).getD 0x100 =
      (w.rest.extractLsb' 24 6).setWidth 32 := by
    have hb : w.chars[1]? = some (w.rest.extractLsb' 24 6) := by
      rw [Codeword.chars, List.getElem?_cons_succ, sixes_eq _ (by omega), List.getElem?_map,
        List.getElem?_range (by omega)]
      rfl
    rw [h 1 _ hb, chardec_charenc]
    rfl
  rw [Reader.address, if_neg hkind, hfirst, hlow]
  rw [List.map_congr_left fun k hk => hchar (k + 1) (List.mem_range.mp hk)]
  generalize hx : w.first.extractLsb' 0 2 = x at *
  unfold Codeword.shortAddress
  rw [hx]
  rcases (by decide : ∀ x : BitVec 2, x = 0 ∨ x = 1 ∨ x = 2 ∨ x = 3) x with rfl | rfl | rfl | rfl
  · rfl
  · change TtyBus.gather _ [w.rest.extractLsb' 18 6] = (w.rest.extractLsb' 18 12).setWidth 32
    rw [gather_append, extract_append w.rest 18]
    rfl
  · change TtyBus.gather _ [w.rest.extractLsb' 18 6, w.rest.extractLsb' 12 6] =
      (w.rest.extractLsb' 12 18).setWidth 32
    rw [gather_append, extract_append w.rest 18, gather_append, extract_append w.rest 12]
    rfl
  · change TtyBus.gather _
      [w.rest.extractLsb' 18 6, w.rest.extractLsb' 12 6, w.rest.extractLsb' 6 6] =
        (w.rest.extractLsb' 6 24).setWidth 32
    rw [gather_append, extract_append w.rest 18, gather_append, extract_append w.rest 12,
      gather_append, extract_append w.rest 6]
    rfl

variable {r : Report} {line : List Char} {inc : Bool} {v : Word}

theorem report_cases (h : l.report w = some r) :
    (∃ c, r = .status c ∧ w.first = c.code) ∨
    (w.first.extractLsb' 2 4 = 2 ∧ r = .address w.address) ∨
    (w.first.extractLsb' 2 4 = 3 ∧ r = .address w.shortAddress) ∨
    ((w.first.extractLsb' 1 5 = 3 ∨ w.first.extractLsb' 4 2 = 1 ∨ w.first.extractLsb' 4 2 = 2) ∧
      r = .data w.inc (l.table (l.wr - w.back))) ∨
    w.raw ∧ r = .data w.inc w.value := by
  unfold Listener.report at h
  split_ifs at h with h6 h2 h3 ht hraw
  · obtain ⟨c, hc, rfl⟩ := Option.map_eq_some_iff.mp h
    have hall : ∀ b : BitVec 6, ∀ c, Status.ofCode b = some c → b = c.code := by
      intro b c hb
      unfold Status.ofCode at hb
      split_ifs at hb with h0 h1 h2 h3 h4 h5 <;> cases hb <;> assumption
    exact Or.inl ⟨c, rfl, hall _ _ hc⟩
  · exact Or.inr (Or.inl ⟨h2, (Option.some.inj h).symm⟩)
  · exact Or.inr (Or.inr (Or.inl ⟨h3, (Option.some.inj h).symm⟩))
  · exact Or.inr (Or.inr (Or.inr (Or.inl ⟨ht, (Option.some.inj h).symm⟩)))
  · exact Or.inr (Or.inr (Or.inr (Or.inr ⟨hraw, (Option.some.inj h).symm⟩)))

/-- A reference is looked up as the listener looks it up. -/
theorem Reader.Holds.lookup (h : s.Holds w.chars) (hf : s.Follows l)
    (hk : w.first.extractLsb' 1 5 = 3 ∨ w.first.extractLsb' 4 2 = 1 ∨ w.first.extractLsb' 4 2 = 2) :
    s.value w.first val = l.table (l.wr - w.back) := by
  have hzero : s.sixbits 0 = w.first := h.sixbits rfl
  rw [← hf.readtbl, ← hf.rdaddr]
  rcases hk with hk | hk | hk
  · have hmask := (by decide : ∀ b : BitVec 6, b.extractLsb' 1 5 = 3 → b &&& 0x3e = 0x06) _ hk
    rw [Reader.value, if_pos hmask, Codeword.back, if_pos hk]
  · have hall : ∀ b : BitVec 6, b.extractLsb' 4 2 = 1 → b &&& 0x3e ≠ 0x06 ∧ b &&& 0x30 = 0x10 ∧
        b.extractLsb' 1 5 ≠ 3 ∧ b.extractLsb' 4 2 ≠ 2 ∧ (Codeword.length ⟨b, 0⟩) = 2 ∧
        ((b >>> 1) &&& 0x07).setWidth 10 = (b.extractLsb' 1 3).setWidth 10 := by decide
    obtain ⟨h6, h10, h3, h2, hlen, hidx⟩ := hall _ hk
    have hone : s.sixbits 1 = w.rest.extractLsb' 24 6 :=
      h.char (k := 0) (by rw [show w.length = 2 from hlen]; decide)
        (by rw [show w.length = 2 from hlen]; decide)
    have hjoin : ∀ (x : BitVec 3) (c : BitVec 6),
        x.setWidth 10 <<< 6 ||| c.setWidth 10 = (x ++ c).setWidth 10 := by decide
    rw [Reader.value, if_neg h6, if_pos h10, Codeword.back, if_neg h3, if_neg h2, hzero, hone, hidx,
      hjoin, BitVec.add_assoc]
    rfl
  · have hall : ∀ b : BitVec 6, b.extractLsb' 4 2 = 2 → b &&& 0x3e ≠ 0x06 ∧ b &&& 0x30 ≠ 0x10 ∧
        b &&& 0x30 = 0x20 ∧ b.extractLsb' 1 5 ≠ 3 ∧
        ((b >>> 1) &&& 0x07).setWidth 10 = (b.extractLsb' 1 3).setWidth 10 := by decide
    obtain ⟨h6, h10, h20, h3, hidx⟩ := hall _ hk
    rw [Reader.value, if_neg h6, if_neg h10, if_pos h20, Codeword.back, if_neg h3, if_pos hk, hidx]

theorem raw_masks {b : BitVec 6} (h : b.extractLsb' 3 3 = 7) : b &&& 0x3e ≠ 0x06 ∧
    b &&& 0x30 ≠ 0x10 ∧ b &&& 0x30 ≠ 0x20 ∧ b &&& 0x38 = 0x38 ∧
    ((b >>> 1) &&& 0x03).setWidth 32 = (b.extractLsb' 1 2).setWidth 32 ∧
    Codeword.length ⟨b, 0⟩ = 6 :=
  (by decide : ∀ b : BitVec 6, b.extractLsb' 3 3 = 7 → b &&& 0x3e ≠ 0x06 ∧ b &&& 0x30 ≠ 0x10 ∧
    b &&& 0x30 ≠ 0x20 ∧ b &&& 0x38 = 0x38 ∧
    ((b >>> 1) &&& 0x03).setWidth 32 = (b.extractLsb' 1 2).setWidth 32 ∧
    Codeword.length ⟨b, 0⟩ = 6) b h

theorem Reader.Holds.word (h : s.Holds w.chars) (hraw : w.raw) :
    TtyBus.gather (((s.sixbits 0 >>> 1) &&& 0x03).setWidth 32)
      ((List.range 5).map fun k => s.sixbits (k + 1)) = w.value := by
  obtain ⟨-, -, -, -, hbits, hlen⟩ := raw_masks (beq_iff_eq.mp hraw)
  rw [h.five hlen, h.sixbits (k := 0) rfl, hbits, gather_rest, Codeword.value]

theorem Reader.found_lastaddr (s : Reader) {b : BitVec 6} (h : ¬ b < 6)
    (ha : b.extractLsb' 3 3 ≠ 1) (h6 : b.extractLsb' 3 3 ≠ 6) :
    (s.found b).lastaddr = s.lastaddr + if b.getLsbD 0 then 4 else 0 := by
  have hall : ∀ b : BitVec 6, ¬ b < 6 → b.extractLsb' 3 3 ≠ 1 → b.extractLsb' 3 3 ≠ 6 →
      (b &&& 0x3e = 0x06 ∨ b &&& 0x30 = 0x10 ∨ b &&& 0x30 = 0x20 ∨ b &&& 0x38 = 0x38) ∧
      (b &&& 1 = 1 ↔ b.getLsbD 0) := by decide
  obtain ⟨hkind, hbit⟩ := hall b h ha h6
  have hlast : (s.lastaddr + if b &&& 1 = 1 then 4 else 0) =
      s.lastaddr + if b.getLsbD 0 then 4 else 0 := congrArg _ (if_congr hbit rfl rfl)
  rw [← hlast]
  simp only [Reader.found]
  by_cases htable : b &&& 0x3e = 0x06 ∨ b &&& 0x30 = 0x10 ∨ b &&& 0x30 = 0x20
  · rw [if_pos htable]
  · have hraw : b &&& 0x38 = 0x38 := by
      rcases hkind with h | h | h | h
      · exact absurd (Or.inl h) htable
      · exact absurd (Or.inr (Or.inl h)) htable
      · exact absurd (Or.inr (Or.inr h)) htable
      · exact h
    rw [if_neg htable, if_pos hraw]

theorem Reader.found_table (s : Reader) {b : BitVec 6}
    (hk : b.extractLsb' 1 5 = 3 ∨ b.extractLsb' 4 2 = 1 ∨ b.extractLsb' 4 2 = 2) :
    (s.found b).readtbl = s.readtbl ∧ (s.found b).rdaddr = s.rdaddr := by
  have hall : ∀ b : BitVec 6,
      (b.extractLsb' 1 5 = 3 ∨ b.extractLsb' 4 2 = 1 ∨ b.extractLsb' 4 2 = 2) →
      b &&& 0x3e = 0x06 ∨ b &&& 0x30 = 0x10 ∨ b &&& 0x30 = 0x20 := by decide
  simp only [Reader.found, if_pos (hall b hk), and_self]

/-- A code of data is taken in as the listener takes it in. -/
theorem Reader.Holds.data (h : s.Holds w.chars) (hf : s.Follows l)
    (hr : l.report w = some (.data inc v)) (val : Word) :
    ∃ t, s.wordAct w.first val = .returned v t ∧ t.line = s.line ∧ t.Follows (l.learn w) ∧
      t.lastaddr = s.lastaddr + if inc then 4 else 0 := by
  rcases report_cases hr with ⟨c, hc, -⟩ | ⟨-, hc⟩ | ⟨-, hc⟩ | ⟨hk, hc⟩ | ⟨hraw, hc⟩
  · cases hc
  · cases hc
  · cases hc
  · cases hc
    have hrefers : w.Refers w.back := ⟨hk, rfl⟩
    obtain ⟨h6, h2, h3, -, h1⟩ := hrefers.first
    have hsix : w.first.extractLsb' 3 3 ≠ 6 := (by decide : ∀ b : BitVec 6,
      (b.extractLsb' 1 5 = 3 ∨ b.extractLsb' 4 2 = 1 ∨ b.extractLsb' 4 2 = 2) →
        b.extractLsb' 3 3 ≠ 6) _ hk
    have hadd : ¬ isAddress w.first = true := (by decide : ∀ b : BitVec 6,
      b.extractLsb' 3 3 ≠ 1 → ¬ isAddress b = true) _ h1
    obtain ⟨htbl, haddr⟩ := s.found_table hk
    have hlearn : l.learn w = l := if_neg (hrefers.not_raw ▸ Bool.false_ne_true)
    refine ⟨s.found w.first, ?_, s.found_line _, ?_, s.found_lastaddr h6 h1 hsix⟩
    · rw [Reader.wordAct, if_neg h6, if_neg hadd, h.lookup hf hk]
    · rw [hlearn]
      exact ⟨htbl.trans hf.readtbl, haddr.trans hf.rdaddr⟩
  · cases hc
    have hseven : w.first.extractLsb' 3 3 = 7 := beq_iff_eq.mp hraw
    obtain ⟨m1, m2, m3, m4, -, -⟩ := raw_masks hseven
    have hall : ∀ b : BitVec 6, b.extractLsb' 3 3 = 7 → ¬ b < 6 ∧ b.extractLsb' 3 3 ≠ 1 ∧
        b.extractLsb' 3 3 ≠ 6 ∧ ¬ isAddress b = true := by decide
    obtain ⟨h6, h1, hsix, hadd⟩ := hall _ hseven
    refine ⟨s.found w.first, ?_, s.found_line _, ?_, s.found_lastaddr h6 h1 hsix⟩
    · rw [Reader.wordAct, if_neg h6, if_neg hadd, Reader.value, if_neg m1, if_neg m2, if_neg m3,
        if_pos m4, h.word hraw]
    · have hlearn : l.learn w = ⟨Function.update l.table l.wr w.value, l.wr + 1⟩ := if_pos hraw
      have hnot : ¬ (w.first &&& 0x3e = 0x06 ∨ w.first &&& 0x30 = 0x10 ∨
          w.first &&& 0x30 = 0x20) := by
        rintro (hm | hm | hm)
        · exact m1 hm
        · exact m2 hm
        · exact m3 hm
      rw [hlearn]
      simp only [Reader.found, if_neg hnot, if_pos m4]
      rw [h.word hraw, hf.readtbl, hf.rdaddr]
      exact ⟨rfl, rfl⟩

theorem Reader.Holds.address_act {a : Word} (h : s.Holds w.chars) (hf : s.Follows l)
    (hr : l.report w = some (.address a)) (val : Word) :
    ∃ u t, s.wordAct w.first val = .again u t ∧ t.line = s.line ∧ t.Follows (l.learn w) ∧
      t.lastaddr = a <<< 2 := by
  have hall : ∀ b : BitVec 6, b.extractLsb' 2 4 = 2 ∨ b.extractLsb' 2 4 = 3 →
      ¬ b < 6 ∧ isAddress b = true ∧ b.extractLsb' 3 3 ≠ 7 := by decide
  rcases report_cases hr with ⟨c, hc, -⟩ | ⟨hk, hc⟩ | ⟨hk, hc⟩ | ⟨-, hc⟩ | ⟨-, hc⟩
  · cases hc
  · obtain ⟨h6, hadd, h7⟩ := hall _ (Or.inl hk)
    have hlearn : l.learn w = l := if_neg (by rw [Codeword.raw, beq_false_of_ne h7]; decide)
    cases hc
    refine ⟨_, _, (if_neg h6).trans (if_pos hadd), rfl, ?_, ?_⟩
    · rw [hlearn]
      exact ⟨hf.1, hf.2⟩
    · change s.address w.first <<< 2 = _
      rw [h.address hk]
  · obtain ⟨h6, hadd, h7⟩ := hall _ (Or.inr hk)
    have hlearn : l.learn w = l := if_neg (by rw [Codeword.raw, beq_false_of_ne h7]; decide)
    cases hc
    refine ⟨_, _, (if_neg h6).trans (if_pos hadd), rfl, ?_, ?_⟩
    · rw [hlearn]
      exact ⟨hf.1, hf.2⟩
    · change s.address w.first <<< 2 = _
      rw [h.shortAddress hk]
  · cases hc
  · cases hc

theorem Reader.status_act {c : Status} (hf : s.Follows l) (hr : l.report w = some (.status c))
    (val : Word) :
    ∃ t, s.wordAct w.first val = (if (Report.status c).fails then .threw t else .again val t) ∧
      t.line = s.line ∧ t.Follows (l.learn w) ∧ t.lastaddr = s.lastaddr := by
  rcases report_cases hr with ⟨c', hc, hfirst⟩ | ⟨-, hc⟩ | ⟨-, hc⟩ | ⟨-, hc⟩ | ⟨-, hc⟩
  · cases hc
    have hlearn : l.learn w = l := if_neg (by rw [Codeword.raw, hfirst]; cases c <;> decide)
    rw [hlearn, hfirst]
    cases c
    · exact ⟨s, rfl, rfl, hf, rfl⟩
    · exact ⟨s, rfl, rfl, hf, rfl⟩
    · exact ⟨s, rfl, rfl, hf, rfl⟩
    · exact ⟨{ s with busErr := true }, rfl, rfl, ⟨hf.1, hf.2⟩, rfl⟩
    · exact ⟨{ s with interruptFlag := true }, rfl, rfl, ⟨hf.1, hf.2⟩, rfl⟩
    · exact ⟨{ s with busErr := true }, rfl, rfl, ⟨hf.1, hf.2⟩, rfl⟩
  · cases hc
  · cases hc
  · cases hc
  · cases hc

/-- Characters with the codewords in them, and anything between these that is no code. -/
inductive Spoken : List Codeword → List Char → Prop
  | nil : Spoken [] []
  | skip {ws : List Codeword} {cs : List Char} {c : Char} : chardec c = none → Spoken ws cs →
      Spoken ws (c :: cs)
  | code {ws : List Codeword} {cs : List Char} {w : Codeword} : Spoken ws cs →
      Spoken (w :: ws) (w.chars.map charenc ++ cs)

/-- As `readwords`, the first call having come so far. -/
def Reader.wordsFrom (s : Reader) (val : Word) : List (Word × Word) :=
  match s.readword val with
  | .returned v t => (v, t.lastaddr) :: t.readwords
  | .threw _ => []
  | .waits => []

theorem Reader.readwords_eq (s : Reader) : s.readwords = s.wordsFrom 0 := by
  unfold Reader.wordsFrom
  cases h : s.readword 0 with
  | returned v t => exact readwords_returned h
  | threw t => exact readwords_threw h
  | waits => exact readwords_waits h

theorem Reader.wordsFrom_again {u : Word} (h : s.wordTurn val = .again u t) :
    s.wordsFrom val = t.wordsFrom u := by
  rw [Reader.wordsFrom, readword_again h, Reader.wordsFrom]

theorem Reader.wordsFrom_returned {u : Word} (h : s.wordTurn val = .returned u t) :
    s.wordsFrom val = (u, t.lastaddr) :: t.wordsFrom 0 := by
  rw [Reader.wordsFrom, readword_returned h, ← t.readwords_eq]

theorem Reader.wordsFrom_threw (h : s.wordTurn val = .threw t) : s.wordsFrom val = [] := by
  rw [Reader.wordsFrom, readword_threw h]

theorem Reader.wordsFrom_waits (h : s.wordTurn val = .waits) : s.wordsFrom val = [] := by
  rw [Reader.wordsFrom, readword_waits h]

theorem first_of_report (h : l.report w = some r) : w.first.extractLsb' 3 3 ≠ 6 := by
  intro h6
  have hall : ∀ b : BitVec 6, b.extractLsb' 3 3 = 6 → ¬ b < 6 ∧ b.extractLsb' 2 4 ≠ 2 ∧
      b.extractLsb' 2 4 ≠ 3 ∧ ¬ (b.extractLsb' 1 5 = 3 ∨ b.extractLsb' 4 2 = 1 ∨
        b.extractLsb' 4 2 = 2) ∧ b.extractLsb' 3 3 ≠ 7 := by decide
  obtain ⟨hsix, h2, h3, ht, h7⟩ := hall _ h6
  rw [Listener.report, if_neg hsix, if_neg h2, if_neg h3, if_neg ht,
    if_neg (by rw [Codeword.raw, beq_false_of_ne h7]; decide)] at h
  cases h

/-- A code read whole leads on as its report says. -/
theorem Reader.wordsFrom_code (hline : s.line = w.chars.map charenc ++ line) (hf : s.Follows l)
    (hr : l.report w = some r) (val : Word) : ∃ (t : Reader) (u : Word), t.line = line ∧
      t.Follows (l.learn w) ∧ t.lastaddr = r.after s.lastaddr ∧
        s.wordsFrom val = r.word s.lastaddr ++ if r.fails then [] else t.wordsFrom u := by
  have hlen := length_chars w (first_of_report hr)
  have hchars : s.line = (w.first :: sixes w.rest (w.length.toNat - 1)).map charenc ++ line := hline
  obtain ⟨u, hturn, hu, hsame, hh⟩ := wordTurn_code hchars hlen val
  have hf' : u.Follows l := ⟨hsame.1.trans hf.1, hsame.2.trans hf.2⟩
  cases r with
  | status c =>
    obtain ⟨t, hact, ht, hft, hlast⟩ := status_act hf' hr val
    refine ⟨t, val, ht.trans hu, hft, hlast.trans hsame.3, ?_⟩
    rw [hact] at hturn
    split_ifs at hturn ⊢
    · exact wordsFrom_threw hturn
    · exact wordsFrom_again hturn
  | address a =>
    obtain ⟨x, t, hact, ht, hft, hlast⟩ := hh.address_act hf' hr val
    exact ⟨t, x, ht.trans hu, hft, hlast, wordsFrom_again (hturn.trans hact)⟩
  | data inc v =>
    obtain ⟨t, hact, ht, hft, hlast⟩ := hh.data hf' hr val
    have hafter : t.lastaddr = (Report.data inc v).after s.lastaddr := by
      rw [hlast, hsame.3]
      rfl
    refine ⟨t, 0, ht.trans hu, hft, hafter, ?_⟩
    rw [wordsFrom_returned (hturn.trans hact), hafter]
    rfl

/-- A code cut short is not taken for anything. -/
theorem Reader.wordsFrom_cut {bs : List (BitVec 6)} (hline : s.line = bs.map charenc)
    (hcut : bs <+: w.chars) (hlt : bs.length < w.chars.length) (hr : l.report w = some r)
    (val : Word) : s.wordsFrom val = [] := by
  refine wordsFrom_waits ?_
  cases bs with
  | nil => exact if_pos hline
  | cons b bs =>
    have hb : b = w.first := by
      obtain ⟨rest, hrest⟩ := hcut
      exact (List.cons.inj hrest).1
    have hlen := length_chars w (first_of_report hr)
    refine wordTurn_waits hline ?_ val
    rw [hb, ← hlen]
    exact hlt

/-- Everything that is spoken is heard, and nothing else; what is still to come is waited for. -/
theorem Reader.wordsFrom_spoken {ws : List Codeword} {cs : List Char} {rs : List Report}
    (hs : Spoken ws cs) (hline : s.line <+: cs) (hf : s.Follows l)
    (hr : l.reports ws = rs.map some) (val : Word) :
    s.wordsFrom val <+: words s.lastaddr rs ∧
      (s.line = cs → s.wordsFrom val = words s.lastaddr rs) := by
  induction hs generalizing s l rs val with
  | nil =>
    have hnil : rs = [] := List.map_eq_nil_iff.mp hr.symm
    have hnone : s.wordsFrom val = [] := wordsFrom_waits (if_pos (List.prefix_nil.mp hline))
    rw [hnil, hnone]
    exact And.intro List.nil_prefix fun _ => rfl
  | @skip ws cs c hc hs ih =>
    rcases List.prefix_cons_iff.mp hline with hnil | ⟨rest, hrest, hpre⟩
    · rw [wordsFrom_waits (if_pos hnil)]
      refine And.intro List.nil_prefix fun h => ?_
      rw [hnil] at h
      cases h
    · have hfirst := lclreadcode_cons hrest
      have hnot : ¬ isCode c = true := by simp [isCode, hc]
      rw [if_neg hnot] at hfirst
      have hturn : s.wordTurn val =
          .again val { s with line := rest, buf := Function.update s.buf 0 c } := by
        unfold Reader.wordTurn
        rw [if_neg (hrest ▸ List.cons_ne_nil _ _), hfirst]
        exact if_pos rfl
      obtain ⟨hbegins, hwhole⟩ := ih
        (s := { s with line := rest, buf := Function.update s.buf 0 c }) hpre ⟨hf.1, hf.2⟩ hr val
      rw [wordsFrom_again hturn]
      exact ⟨hbegins, fun h => hwhole (List.cons.inj (hrest.symm.trans h)).2⟩
  | @code ws cs w hs ih =>
    obtain ⟨r, rs, rfl⟩ : ∃ r rs', rs = r :: rs' := by
      cases rs with
      | nil => cases hr
      | cons r rs => exact ⟨r, rs, rfl⟩
    obtain ⟨hrep, hreps⟩ := List.cons.inj hr
    have hchars := List.prefix_append (w.chars.map charenc) cs
    rcases Nat.lt_or_ge s.line.length (w.chars.map charenc).length with hlt | hge
    · have hcut := List.prefix_of_prefix_length_le hline hchars hlt.le
      have hmap : s.line = (w.chars.take s.line.length).map charenc := by
        rw [List.map_take]
        exact List.prefix_iff_eq_take.mp hcut
      rw [List.length_map] at hlt
      have htake := List.take_prefix s.line.length w.chars
      rw [wordsFrom_cut hmap htake (by rw [List.length_take]; omega) hrep]
      refine And.intro List.nil_prefix fun h => ?_
      rw [h, List.length_append, List.length_map] at hlt
      omega
    · obtain ⟨rest, hrest⟩ := List.prefix_of_prefix_length_le hchars hline hge
      have hpre : rest <+: cs := by
        rw [← hrest] at hline
        exact (List.prefix_append_right_inj _).mp hline
      obtain ⟨t, u, ht, hft, hlast, hwords⟩ := wordsFrom_code hrest.symm hf hrep val
      obtain ⟨hbegins, hwhole⟩ := ih (ht ▸ hpre) hft hreps u
      rw [hlast] at hbegins hwhole
      rw [hwords, words]
      split_ifs
      · exact ⟨List.prefix_rfl, fun _ => rfl⟩
      · refine ⟨(List.prefix_append_right_inj _).mpr hbegins, fun h => ?_⟩
        rw [hwhole (ht.trans (List.append_cancel_left (hrest.trans h)))]

/-- The host's character for what the serial port takes. -/
def hostChar (b : BitVec 8) : Char := Char.ofNat b.toNat

theorem hostChar_typed (c : BitVec 6) : hostChar (typed (c.setWidth 7)) = charenc c := by
  revert c
  decide

theorem hostChar_mark : chardec (hostChar (typed mark)) = none := by
  decide

theorem Spoken.append {ws vs : List Codeword} {cs ds : List Char} (h : Spoken ws cs)
    (h' : Spoken vs ds) : Spoken (ws ++ vs) (cs ++ ds) := by
  induction h with
  | nil => exact h'
  | skip hc _ ih => exact ih.skip hc
  | code _ ih =>
    rw [List.append_assoc]
    exact ih.code

theorem spoken_of_text {ws : List Codeword} {ys : List Item} (h : Text ws ys) :
    Spoken ws ((ys.map typed).map hostChar) := by
  induction h with
  | nil => exact .nil
  | @newline ws ys _ ih =>
    have h := ih.append (.skip hostChar_mark .nil)
    rw [List.append_nil] at h
    simpa using h
  | @code ws ys w _ ih =>
    have h := ih.append (.code (w := w) .nil)
    have hw : (w.items.map typed).map hostChar = w.chars.map charenc := by
      rw [Codeword.items, List.map_map, List.map_map]
      exact List.map_congr_left fun c _ => hostChar_typed c
    rw [List.map_append, List.map_append, hw]
    simpa using h

theorem spoken_zeros {nul : List (BitVec 8)} (h : ∀ c ∈ nul, c = 0) :
    Spoken [] (nul.map hostChar) := by
  induction nul with
  | nil => exact .nil
  | cons c nul ih =>
    have hc : chardec (hostChar c) = none := by
      rw [h c (List.mem_cons_self ..)]
      decide
    exact (ih fun d hd => h d (List.mem_cons_of_mem _ hd)).skip hc

theorem words_append (a : Word) (rs vs : List Report) : words a rs <+: words a (rs ++ vs) := by
  induction rs generalizing a with
  | nil => exact List.nil_prefix
  | cons r rs ih =>
    rw [List.cons_append, words, words]
    split_ifs
    · exact List.prefix_rfl
    · exact (List.prefix_append_right_inj _).mpr (ih _)

/-- Whatever the host has been sent, and however much of it, call after call of `readword`
returns the words among the reports, in order and with their addresses, and when nothing is
held back all of them. -/
theorem readwords_reports {t : Replying} (h : replying.Reachable t) (s : Reader)
    (hline : s.line = t.sent.map hostChar) :
    s.readwords <+: words s.lastaddr t.front.taken ∧
      (t.Quiet → t.front.ff.sg = false → s.readwords = words s.lastaddr t.front.taken) := by
  obtain ⟨rs, hk⟩ := Compressing.kept_of_reachable (Replying.front_of_reachable h)
    ⟨s.readtbl, s.rdaddr⟩
  obtain ⟨nul, zs, hzero, htext, hbegins, hquiet⟩ := sent_prefix h
  have hspoken := (spoken_zeros hzero).append (spoken_of_text htext)
  rw [List.nil_append, ← List.map_append] at hspoken
  have hpre : s.line <+: (nul ++ zs.map typed).map hostChar := hline ▸ hbegins.map _
  obtain ⟨hsome, hall⟩ := Reader.wordsFrom_spoken hspoken hpre ⟨rfl, rfl⟩ hk.heard 0
  rw [s.readwords_eq]
  refine ⟨hsome.trans ?_, fun hq hsg => ?_⟩
  · rcases Bool.eq_false_or_eq_true t.front.ff.sg with hsg | hsg
    · obtain ⟨r, -, htaken, -⟩ := hk.held hsg
      rw [htaken]
      exact words_append ..
    · rw [hk.idle hsg]
  · rw [hk.idle hsg]
    exact hall (by rw [hline, hquiet hq])

end S6Soc.TtyBus
