import S6Soc.ReadCodes

/-! `TTYBUS::readidle`: whatever the bus has sent unasked is read off and ignored, but for
interrupts and errors. -/
namespace S6Soc.TtyBus

/-- The host while it reads. `line` has arrived and is not read yet, and nothing more
comes: a read then fails on a descriptor opened `O_NONBLOCK` and waits on any other.
`examined` is the codes the dispatch has been through. -/
structure Reader where
  line : List Char
  nonblock : Bool
  buf : Nat → Char
  interruptFlag : Bool
  busErr : Bool
  lastaddr : Word
  rdaddr : BitVec 10
  readtbl : BitVec 10 → Word
  examined : List (List (BitVec 6))

/-- `lclreadcode(&m_buf[nr], len)`, where there is something to read. -/
def Reader.lclreadcode (s : Reader) (nr len : Nat) : Nat × Reader :=
  let (out, r) := TtyBus.lclreadcode (s.line.take len)
  (r, { s with
    line := s.line.drop len
    buf := fun k => if nr ≤ k ∧ k < nr + out.length then out.getD (k - nr) '\n' else s.buf k })

/-- The loops that wait for the rest of a code. With nothing to read they never end. -/
def Reader.gather (s : Reader) (nr n : Nat) : Option Reader :=
  if s.line = [] then none
  else
    let r := s.lclreadcode nr (n - nr)
    if nr + r.1 < n then r.2.gather (nr + r.1) n else some r.2
termination_by s.line.length
decreasing_by
  have := List.length_pos_of_ne_nil ‹_›
  simp only [Reader.lclreadcode, List.length_drop]
  omega

/-- The characters of a code that starts with `sixbits`. -/
def replyLength (sixbits : BitVec 6) : Nat :=
  if sixbits &&& 0x3c = 0x08 then 6
  else if sixbits &&& 0x3c = 0x0c then (sixbits &&& 0x03).toNat + 2
  else if sixbits &&& 0x30 = 0x10 then 2
  else if sixbits &&& 0x38 = 0x38 then 6
  else 1

/-- An address, of either kind. -/
def isAddress (sixbits : BitVec 6) : Bool :=
  sixbits &&& 0x3c == 0x08 || sixbits &&& 0x3c == 0x0c

def Reader.sixbits (s : Reader) (k : Nat) : BitVec 6 := (chardec (s.buf k)).getD 0

/-- The code is in the buffer. -/
def Reader.examine (s : Reader) (n : Nat) : Reader :=
  { s with examined := s.examined ++ [(List.range n).map s.sixbits] }

/-- Data nobody has asked for. -/
def Reader.found (s : Reader) (sixbits : BitVec 6) : Reader :=
  let lastaddr := s.lastaddr + if sixbits &&& 1 = 1 then 4 else 0
  if sixbits &&& 0x3e = 0x06 ∨ sixbits &&& 0x30 = 0x10 ∨ sixbits &&& 0x30 = 0x20 then
    { s with lastaddr := lastaddr }
  else if sixbits &&& 0x38 = 0x38 then
    { s with
      readtbl := Function.update s.readtbl s.rdaddr (TtyBus.gather
        (((s.sixbits 0 >>> 1) &&& 0x03).setWidth 32)
        ((List.range 5).map fun k => s.sixbits (k + 1)))
      rdaddr := s.rdaddr + 1
      lastaddr := lastaddr }
  else s

/-- How one turn of the loop ends. -/
inductive Turn where
  | again (s : Reader)
  | returned (s : Reader)
  | threw (s : Reader)
  | stuck

/-- What a whole code brings about. -/
def Reader.act (s : Reader) (sixbits : BitVec 6) : Turn :=
  if sixbits < 6 then
    if sixbits = 3 ∨ sixbits = 5 then .threw { s with busErr := true }
    else if sixbits = 4 then .again { s with interruptFlag := true }
    else .again s
  else if isAddress sixbits then .again s
  else .returned (s.found sixbits)

/-- The body, once `m_buf[0]` has been read for the second time. -/
def Reader.dispatch (s : Reader) : Turn :=
  match chardec (s.buf 0) with
  | none => .again s
  | some sixbits =>
    let n := replyLength sixbits
    if n = 1 then (s.examine 1).act sixbits
    else
      -- `nr` is 1, unless there was nothing to read
      match s.gather 1 n with
      | none => .stuck
      | some s => (s.examine n).act sixbits

def Reader.turn (s : Reader) : Turn :=
  -- `m_dev->available()`
  if s.line = [] then .returned s
  else
    let first := s.lclreadcode 0 1
    if first.1 = 0 then .returned first.2
    else if first.2.line = [] then if s.nonblock then first.2.dispatch else .stuck
    else (first.2.lclreadcode 0 1).2.dispatch

/-- What the call leaves, and whether it has thrown. -/
structure Outcome where
  reader : Reader
  thrown : Bool

variable {s t : Reader} {nr n : Nat} {x : BitVec 6}

/-- The codes on the line that no one has read. -/
def Reader.codes (s : Reader) : List (BitVec 6) := s.line.filterMap chardec

/-- The code characters that have been examined. -/
def Reader.seen (s : Reader) : Nat := (s.examined.map List.length).sum

theorem length_filter_isCode (xs : List Char) :
    (xs.filter isCode).length = (xs.filterMap chardec).length := by
  induction xs with
  | nil => rfl
  | cons x xs ih =>
    cases hx : chardec x <;> simp [isCode, hx, ih]

/-- Every code that is read is counted. -/
theorem Reader.lclreadcode_codes (s : Reader) (nr len : Nat) :
    s.codes.length = (s.lclreadcode nr len).1 + (s.lclreadcode nr len).2.codes.length := by
  have hret : (s.lclreadcode nr len).1 = ((s.line.take len).filterMap chardec).length :=
    (lclreadcode_ret _).trans (length_filter_isCode _)
  have hsplit : s.codes = (s.line.take len).filterMap chardec ++
      (s.lclreadcode nr len).2.codes := by
    change _ = (s.line.take len).filterMap chardec ++ (s.line.drop len).filterMap chardec
    rw [← List.filterMap_append, List.take_append_drop]
    rfl
  rw [hret, hsplit, List.length_append]

theorem Reader.lclreadcode_le (s : Reader) (nr len : Nat) : (s.lclreadcode nr len).1 ≤ len :=
  (TtyBus.lclreadcode_le _).trans (List.length_take_le ..)

/-- The rest of a code is as long as it should be. -/
theorem Reader.gather_codes (h : s.gather nr n = some t) (hn : nr < n) :
    s.codes.length = t.codes.length + (n - nr) ∧ t.examined = s.examined ∧
      t.line.length < s.line.length := by
  fun_induction Reader.gather s nr n with
  | case1 => cases h
  | case2 s nr hline r hlt ih =>
    obtain ⟨hc, he, hl⟩ := ih h hlt
    have hcodes := s.lclreadcode_codes nr (n - nr)
    have hshort : r.2.line.length ≤ s.line.length :=
      (List.length_drop ..).trans_le (Nat.sub_le ..)
    refine ⟨?_, he, Nat.lt_of_lt_of_le hl hshort⟩
    simp only [r] at *
    omega
  | case3 s nr hline r hge =>
    cases h
    have hcodes := s.lclreadcode_codes nr (n - nr)
    have hle := s.lclreadcode_le nr (n - nr)
    have hpos := List.length_pos_of_ne_nil hline
    refine ⟨?_, rfl, ?_⟩
    · simp only [r] at *
      omega
    · simp only [r, Reader.lclreadcode, List.length_drop]
      omega

/-- The state a turn leaves. -/
def Turn.Leaves (t : Reader) : Turn → Prop
  | .again s => s = t
  | .returned s => s = t
  | .threw s => s = t
  | .stuck => False

theorem lclreadcode_singleton (a : Char) :
    TtyBus.lclreadcode [a] = ([a], if isCode a then 1 else 0) := by
  cases h : isCode a <;> simp [TtyBus.lclreadcode, compaction, Compaction.step, h]

theorem Reader.lclreadcode_cons {a : Char} {rest : List Char} (h : s.line = a :: rest) :
    s.lclreadcode 0 1 = (if isCode a then 1 else 0,
      { s with line := rest, buf := Function.update s.buf 0 a }) := by
  unfold Reader.lclreadcode
  rw [h, List.take_succ_cons, List.take_zero, lclreadcode_singleton]
  refine Prod.ext rfl (congrArg (fun b => { s with line := rest, buf := b }) ?_)
  funext k
  cases k <;> simp [Function.update]

theorem Reader.seen_examine (s : Reader) (n : Nat) : (s.examine n).seen = s.seen + n := by
  simp [Reader.examine, Reader.seen]

theorem Reader.act_leaves (h : (s.act x).Leaves t) : t.line = s.line ∧ t.examined = s.examined := by
  unfold Reader.act at h
  split_ifs at h <;> cases h <;> try exact ⟨rfl, rfl⟩
  unfold Reader.found
  split_ifs <;> exact ⟨rfl, rfl⟩

/-- A code in the buffer is examined, and the characters read for that are as many as it
has besides the first. -/
theorem Reader.dispatch_leaves (h : s.dispatch.Leaves t) :
    t.codes.length + t.seen = s.codes.length + s.seen + (if isCode (s.buf 0) then 1 else 0) ∧
      t.line.length ≤ s.line.length := by
  unfold Reader.dispatch at h
  cases hb : chardec (s.buf 0) with
  | none =>
    simp only [hb] at h
    cases h
    simp [isCode, hb]
  | some x =>
    have hcode : isCode (s.buf 0) := by simp [isCode, hb]
    rw [if_pos hcode]
    simp only [hb] at h
    split_ifs at h with hn
    · obtain ⟨hline, he⟩ := act_leaves h
      have hseen := s.seen_examine 1
      simp only [Reader.codes, Reader.seen, hline, he] at hseen ⊢
      exact ⟨by simp only [Reader.examine] at hseen ⊢; omega, Nat.le_refl _⟩
    · cases hg : s.gather 1 (replyLength x) with
      | none =>
        simp only [hg] at h
        exact h.elim
      | some u =>
        simp only [hg] at h
        have hlt : 1 < replyLength x := by
          have : 0 < replyLength x := by
            unfold replyLength
            split_ifs <;> omega
          omega
        obtain ⟨hc, hex, hl⟩ := gather_codes hg hlt
        obtain ⟨hline, he⟩ := act_leaves h
        have hseen := u.seen_examine (replyLength x)
        simp only [Reader.codes, Reader.seen, hline, he, hex] at hc hseen ⊢
        simp only [Reader.examine, hex] at hseen ⊢
        exact ⟨by omega, hl.le⟩

theorem codes_cons {a : Char} {rest : List Char} (h : s.line = a :: rest) :
    s.codes.length = (if isCode a then 1 else 0) + (rest.filterMap chardec).length := by
  unfold Reader.codes
  rw [h]
  cases ha : chardec a <;> simp [isCode, ha, Nat.add_comm]

/-- What a turn reads it has examined, unless it has read two characters for the one: then
the first, if it is a code, is lost. -/
theorem Reader.turn_leaves {a : Char} {rest : List Char} (hline : s.line = a :: rest)
    (h : s.turn.Leaves t) :
    t.codes.length + t.seen + (if isCode a ∧ rest ≠ [] then 1 else 0) ≤ s.codes.length + s.seen ∧
      t.line.length < s.line.length := by
  unfold Reader.turn at h
  rw [if_neg (by rw [hline]; exact List.cons_ne_nil _ _), lclreadcode_cons hline] at h
  have hcodes := codes_cons hline
  have hlength : s.line.length = rest.length + 1 := by rw [hline]; rfl
  by_cases ha : isCode a
  · rw [if_pos ha] at hcodes
    simp only [ha, if_true, Nat.one_ne_zero, if_false] at h
    cases rest with
    | nil =>
      simp only [if_true] at h
      split_ifs at h
      · obtain ⟨hspare, hle⟩ := dispatch_leaves h
        simp only [Function.update_self, ha, if_true, Reader.codes, Reader.seen,
          List.filterMap_nil, List.length_nil] at hspare hle hcodes ⊢
        simp only [ne_eq, not_true_eq_false, and_false, if_false]
        omega
      · exact h.elim
    | cons b rest =>
      simp only [reduceCtorEq, if_false] at h
      rw [lclreadcode_cons rfl] at h
      obtain ⟨hspare, hle⟩ := dispatch_leaves h
      have hb : ((b :: rest).filterMap chardec).length =
          (if isCode b then 1 else 0) + (rest.filterMap chardec).length :=
        codes_cons (s := { s with line := b :: rest }) rfl
      simp only [Function.update_self, Reader.codes, Reader.seen,
        List.length_cons] at hspare hle hcodes hlength ⊢
      simp only [ha, ne_eq, reduceCtorEq, not_false_eq_true, and_self, if_true]
      omega
  · rw [if_neg ha] at hcodes
    simp only [ha] at h
    cases h
    rw [if_neg (fun c => ha c.1)]
    simp only [Reader.codes, Reader.seen] at hcodes ⊢
    omega

theorem Reader.turn_nil (h : s.line = []) : s.turn = .returned s := if_pos h

theorem Reader.turn_shorter (h : s.turn = .again t) : t.line.length < s.line.length := by
  cases hline : s.line with
  | nil =>
    rw [turn_nil hline] at h
    cases h
  | cons a rest => exact hline ▸ (turn_leaves hline (h ▸ rfl)).2

def Reader.readidle (s : Reader) : Option Outcome :=
  match _h : s.turn with
  | .again t => t.readidle
  | .returned t => some ⟨t, false⟩
  | .threw t => some ⟨t, true⟩
  | .stuck => none
termination_by s.line.length
decreasing_by exact turn_shorter ‹_›

theorem Reader.readidle_again (h : s.turn = .again t) : s.readidle = t.readidle := by
  rw [Reader.readidle]
  split <;> simp_all

theorem Reader.readidle_returned (h : s.turn = .returned t) : s.readidle = some ⟨t, false⟩ := by
  rw [Reader.readidle]
  split <;> simp_all

theorem Reader.readidle_threw (h : s.turn = .threw t) : s.readidle = some ⟨t, true⟩ := by
  rw [Reader.readidle]
  split <;> simp_all

theorem Reader.readidle_stuck (h : s.turn = .stuck) : s.readidle = none := by
  rw [Reader.readidle]
  split <;> simp_all

/-- No call examines more than it reads. -/
theorem Reader.readidle_le (o : Outcome) (h : s.readidle = some o) :
    o.reader.codes.length + o.reader.seen ≤ s.codes.length + s.seen := by
  fun_induction Reader.readidle s with
  | case1 s t ht ih =>
    cases hline : s.line with
    | nil =>
      rw [turn_nil hline] at ht
      cases ht
    | cons a rest =>
      have := turn_leaves hline (ht ▸ rfl : s.turn.Leaves t)
      exact (ih h).trans (by omega)
  | case2 s t ht | case3 s t ht =>
    cases h
    cases hline : s.line with
    | nil =>
      rw [turn_nil hline] at ht
      cases ht <;> exact Nat.le_refl _
    | cons a rest =>
      have := turn_leaves hline (ht ▸ rfl : s.turn.Leaves t)
      dsimp only
      omega
  | case4 => cases h

/-- If it starts with a code and more has arrived, it examines less. -/
theorem Reader.readidle_lt {a b : Char} {rest : List Char} (hline : s.line = a :: b :: rest)
    (ha : isCode a) (o : Outcome) (h : s.readidle = some o) :
    o.reader.codes.length + o.reader.seen < s.codes.length + s.seen := by
  have key : ∀ t, s.turn.Leaves t → t.codes.length + t.seen < s.codes.length + s.seen := by
    intro t ht
    have := (turn_leaves hline ht).1
    rw [if_pos ⟨ha, List.cons_ne_nil _ _⟩] at this
    omega
  cases ht : s.turn with
  | again t =>
    rw [readidle_again ht] at h
    exact (readidle_le o h).trans_lt (key t (ht ▸ rfl))
  | returned t =>
    rw [readidle_returned ht] at h
    cases h
    exact key t (ht ▸ rfl)
  | threw t =>
    rw [readidle_threw ht] at h
    cases h
    exact key t (ht ▸ rfl)
  | stuck =>
    rw [readidle_stuck ht] at h
    cases h

/-- A code as the bus sends it, to its last character. -/
structure Code where
  first : BitVec 6
  rest : List (BitVec 6)
  complete : rest.length + 1 = replyLength first

def Code.chars (c : Code) : List (BitVec 6) := c.first :: c.rest

/-- A bus error or a bus reset. -/
def Code.isError (c : Code) : Bool := c.first == 3 || c.first == 5

/-- An error, or data. -/
def Code.ends (c : Code) : Bool := c.isError || decide (6 ≤ c.first) && !isAddress c.first

/-- The codes up to the one that ends the call. -/
def upToEnd : List Code → List Code
  | [] => []
  | c :: cs => if c.ends then [c] else c :: upToEnd cs

/-- What a call should do with the codes `cs`. -/
structure Reader.Serves (s : Reader) (cs : List Code) (o : Outcome) : Prop where
  examined : o.reader.examined = s.examined ++ (upToEnd cs).map Code.chars
  left : o.reader.codes = (cs.drop (upToEnd cs).length).flatMap Code.chars
  interrupt : o.reader.interruptFlag =
    (s.interruptFlag || (upToEnd cs).any fun c => c.first == 4)
  thrown : o.thrown = (upToEnd cs).any Code.isError
  busErr : o.reader.busErr = (s.busErr || o.thrown)

variable {cs : List Code} {o : Outcome}

theorem flatMap_chars_eq_nil (h : cs.flatMap Code.chars = []) : cs = [] := by
  cases cs with
  | nil => rfl
  | cons c cs => simp [Code.chars] at h

theorem upToEnd_append (cs : List Code) : upToEnd cs ++ cs.drop (upToEnd cs).length = cs := by
  induction cs with
  | nil => rfl
  | cons c cs ih =>
    unfold upToEnd
    split_ifs
    · rfl
    · simpa using ih

theorem length_flatMap_chars (cs : List Code) :
    (cs.flatMap Code.chars).length = ((cs.map Code.chars).map List.length).sum := by
  rw [List.length_flatMap, List.map_map]
  rfl

/-- Nothing is lost then. -/
theorem Reader.Serves.spare (h : s.Serves cs o) (hcs : s.codes = cs.flatMap Code.chars) :
    o.reader.codes.length + o.reader.seen = s.codes.length + s.seen := by
  have hsplit : (cs.flatMap Code.chars).length = ((upToEnd cs).flatMap Code.chars).length +
      ((cs.drop (upToEnd cs).length).flatMap Code.chars).length := by
    rw [← List.length_append, ← List.flatMap_append, upToEnd_append]
  rw [hcs, hsplit, h.left, Reader.seen, h.examined, List.map_append, List.sum_append,
    ← length_flatMap_chars]
  unfold Reader.seen
  omega

/-- No code has arrived. -/
theorem Reader.serves_nothing (h : s.codes = []) : ∃ o, s.readidle = some o ∧ s.Serves [] o := by
  cases hline : s.line with
  | nil =>
    refine ⟨_, readidle_returned (turn_nil hline), ?_⟩
    exact ⟨(List.append_nil _).symm, h, (Bool.or_false _).symm, rfl, (Bool.or_false _).symm⟩
  | cons a rest =>
    unfold Reader.codes at h
    rw [hline] at h
    obtain ⟨ha, hrest⟩ : chardec a = none ∧ rest.filterMap chardec = [] := by
      simpa using h
    have hturn : s.turn = .returned { s with line := rest, buf := Function.update s.buf 0 a } := by
      unfold Reader.turn
      rw [if_neg (by simp [hline]), lclreadcode_cons hline, isCode, ha]
      rfl
    refine ⟨_, readidle_returned hturn, ?_⟩
    exact ⟨(List.append_nil _).symm, hrest, (Bool.or_false _).symm, rfl, (Bool.or_false _).symm⟩

theorem Reader.serves_singleton {c : Code} (hex : o.reader.examined = s.examined ++ [c.chars])
    (hleft : o.reader.codes = [])
    (hint : o.reader.interruptFlag = (s.interruptFlag || c.first == 4))
    (hthrown : o.thrown = c.isError) (herr : o.reader.busErr = (s.busErr || o.thrown)) :
    s.Serves [c] o := by
  have hup : upToEnd [c] = [c] := by
    unfold upToEnd
    split_ifs <;> rfl
  refine ⟨?_, ?_, ?_, ?_, herr⟩ <;> rw [hup]
  · exact hex
  · exact hleft
  · simpa using hint
  · simpa using hthrown

/-- One character has arrived, which is a whole code, and the second read fails. -/
theorem Reader.serves_one {a : Char} {c : Code} (hline : s.line = [a]) (hn : s.nonblock)
    (ha : chardec a = some c.first) (hrest : c.rest = []) :
    ∃ o, s.readidle = some o ∧ s.Serves [c] o := by
  have hone : replyLength c.first = 1 := by rw [← c.complete, hrest]; rfl
  have haddr : isAddress c.first = false := by
    revert hone
    generalize c.first = x
    revert x
    decide
  let u := ({ s with line := [], buf := Function.update s.buf 0 a } : Reader).examine 1
  have hturn : s.turn = u.act c.first := by
    unfold Reader.turn
    rw [if_neg (by simp [hline]), lclreadcode_cons hline]
    simp [isCode, ha, hn, Reader.dispatch, hone, u]
  have hex : u.examined = s.examined ++ [c.chars] := by
    simp [u, Reader.examine, Reader.sixbits, ha, Code.chars, hrest]
  unfold Reader.act at hturn
  split_ifs at hturn with hlt herr hint
  · refine ⟨_, readidle_threw hturn, serves_singleton hex rfl ?_ ?_ (Bool.or_true _).symm⟩
    · rcases herr with h | h <;> simp [h, u, Reader.examine]
    · rcases herr with h | h <;> simp [Code.isError, h]
  · refine ⟨_, (readidle_again hturn).trans (readidle_returned (turn_nil rfl)), ?_⟩
    refine serves_singleton hex rfl ?_ ?_ (Bool.or_false _).symm
    · simp [hint]
    · simp [Code.isError, hint]
  · refine ⟨_, (readidle_again hturn).trans (readidle_returned (turn_nil rfl)), ?_⟩
    refine serves_singleton hex rfl ?_ ?_ (Bool.or_false _).symm
    · rw [beq_eq_false_iff_ne.2 hint, Bool.or_false]
      rfl
    · simpa [Code.isError] using herr
  · exact absurd (haddr.symm.trans ‹_›) (by decide)
  · have hfound : (u.found c.first).examined = u.examined ∧ (u.found c.first).codes = [] ∧
        (u.found c.first).interruptFlag = s.interruptFlag ∧
        (u.found c.first).busErr = s.busErr := by
      unfold Reader.found
      split_ifs <;> exact ⟨rfl, rfl, rfl, rfl⟩
    obtain ⟨hfe, hfc, hfi, hfb⟩ := hfound
    refine ⟨_, readidle_returned hturn, serves_singleton (hfe.trans hex) hfc ?_ ?_ ?_⟩
    · rw [hfi, beq_eq_false_iff_ne.2 (by rintro h; rw [h] at hlt; exact hlt (by decide)),
        Bool.or_false]
    · refine (Bool.or_eq_false_iff.2 ⟨?_, ?_⟩).symm <;>
        exact beq_eq_false_iff_ne.2 (by rintro h; rw [h] at hlt; exact hlt (by decide))
    · exact hfb.trans (Bool.or_false _).symm

/-- Every code is examined once exactly when there is none, or a single character has
arrived on a line that does not block. -/
theorem Reader.serves_iff (s : Reader) (cs : List Code)
    (hcs : s.codes = cs.flatMap Code.chars) :
    (∃ o, s.readidle = some o ∧ s.Serves cs o) ↔ cs = [] ∨ s.nonblock ∧ s.line.length = 1 := by
  constructor
  · rintro ⟨o, ho, hs⟩
    have hspare := hs.spare hcs
    match hline : s.line with
    | [] =>
      refine .inl (flatMap_chars_eq_nil (hcs.symm.trans ?_))
      rw [Reader.codes, hline]
      rfl
    | [a] =>
      by_cases hn : s.nonblock
      · exact .inr ⟨hn, rfl⟩
      left
      by_cases ha : isCode a
      · -- the second read waits for ever
        rw [readidle_stuck] at ho
        · cases ho
        · unfold Reader.turn
          rw [if_neg (by simp [hline]), lclreadcode_cons hline]
          simp [ha, hn]
      · refine flatMap_chars_eq_nil (hcs.symm.trans (List.eq_nil_of_length_eq_zero ?_))
        rw [codes_cons hline, if_neg ha]
        rfl
    | a :: b :: rest =>
      left
      by_cases ha : isCode a
      · have := readidle_lt hline ha o ho
        omega
      · -- the call ends at once: there cannot have been a code
        have hturn : s.turn =
            .returned { s with line := b :: rest, buf := Function.update s.buf 0 a } := by
          unfold Reader.turn
          rw [if_neg (by simp [hline]), lclreadcode_cons hline, if_neg ha]
          rfl
        rw [readidle_returned hturn] at ho
        cases ho
        have hnone : (upToEnd cs).map Code.chars = [] := List.self_eq_append_right.1 hs.examined
        cases cs with
        | nil => rfl
        | cons c cs =>
          unfold upToEnd at hnone
          split_ifs at hnone <;> cases hnone
  · rintro (rfl | ⟨hn, hl⟩)
    · exact serves_nothing hcs
    · obtain ⟨a, hline⟩ := List.length_eq_one_iff.1 hl
      cases ha : chardec a with
      | none =>
        have hnil : s.codes = [] := by
          unfold Reader.codes
          rw [hline]
          simp [ha]
        have := flatMap_chars_eq_nil (hcs.symm.trans hnil)
        subst this
        exact serves_nothing hnil
      | some x =>
        have hx : cs.flatMap Code.chars = [x] := by
          rw [← hcs]
          unfold Reader.codes
          rw [hline]
          simp [ha]
        cases cs with
        | nil => cases hx
        | cons c cs =>
          obtain ⟨hc, hcs'⟩ := List.cons.inj hx
          obtain ⟨hrest, htail⟩ := List.append_eq_nil_iff.1 hcs'
          have := flatMap_chars_eq_nil htail
          subst this
          exact serves_one hline hn (hc ▸ ha) hrest

/-- A host just started, with this on the line. -/
def Reader.initial (line : List Char) : Reader where
  line := line
  nonblock := true
  buf := fun _ => '\n'
  interruptFlag := false
  busErr := false
  lastaddr := 0
  rdaddr := 0
  readtbl := fun _ => 0
  examined := []

def interruptCode : Code := ⟨4, [], by decide⟩

def idleCode : Code := ⟨0, [], by decide⟩

theorem Reader.serves_iff_interrupt :
    (∃ o, (Reader.initial ['4']).readidle = some o ∧
        (Reader.initial ['4']).Serves [interruptCode] o) ↔
      [interruptCode] = [] ∨ true ∧ 1 = 1 :=
  Reader.serves_iff (.initial ['4']) [interruptCode] (by decide)

/-- The interrupt is not seen if anything has come after it. -/
theorem Reader.interrupt_lost : ¬ ∀ (s : Reader) (cs : List Code),
    s.codes = cs.flatMap Code.chars → ∃ o, s.readidle = some o ∧ s.Serves cs o := by
  intro h
  have hcs : (Reader.initial ['4', '0']).codes = [interruptCode, idleCode].flatMap Code.chars := by
    decide
  obtain ⟨o, ho, hs⟩ := h (.initial ['4', '0']) [interruptCode, idleCode] hcs
  have hlt := readidle_lt (s := .initial ['4', '0']) rfl (by decide) o ho
  have := hs.spare hcs
  omega

end S6Soc.TtyBus
