import Mathlib

/-! Reading from the console, `_inbyte` and `_read_r`: carriage returns become line ends as
the bytes come in. -/
namespace S6Soc.Console

abbrev Byte := BitVec 8

def CR : Byte := 0x0d
def LF : Byte := 0x0a

/-- What a read of the receiver finds: nothing new, above the last byte, or a byte. -/
inductive Poll where
  | empty (stale : Byte)
  | byte (b : Byte)

def Poll.uartrx : Poll → BitVec 32
  | .empty stale => 0x0100 ||| stale.setWidth 32
  | .byte b => b.setWidth 32

/-- `last_was_cr`, and what has been sent back. -/
structure State where
  lastWasCr : Bool
  echoed : List Byte

/-- `_outbyte`. -/
def State.outbyte (s : State) (v : Byte) : State :=
  { s with echoed := s.echoed ++ if v = LF then [CR, LF] else [v] }

/-- The translation of `_inbyte`: `rv` and `last_was_cr`. -/
def crIntoNl (lastWasCr : Bool) (rv : BitVec 32) : BitVec 32 × Bool :=
  if rv &&& 0x0100 ≠ 0 then (-1, lastWasCr)
  else if rv = CR.setWidth 32 then (LF.setWidth 32, true)
  else if rv = LF.setWidth 32 then if lastWasCr then (-1, false) else (rv, lastWasCr)
  else (rv, false)

def State.inbyte (s : State) (p : Poll) : BitVec 32 × State :=
  let (rv, cr) := crIntoNl s.lastWasCr p.uartrx
  let s := { s with lastWasCr := cr }
  (rv, if rv ≠ -1 then s.outbyte (rv.setWidth 8) else s)

/-- Nothing was read. -/
def failed (rv : BitVec 32) : Bool := rv &&& 0x0100 != 0

/-- The first loop of `_read_r`: it waits for a character. -/
def State.wait (s : State) : List Poll → Option (Byte × State × List Poll)
  | [] => none
  | p :: ps =>
    let (rv, s') := s.inbyte p
    if failed rv then s'.wait ps else some (rv.setWidth 8, s', ps)

/-- The second: it takes what is there. -/
def State.drain (s : State) (nr len : Nat) : List Poll → Option (List Byte × State × List Poll)
  | [] => if nr < len then none else some ([], s, [])
  | p :: ps =>
    if nr < len then
      let (rv, s') := s.inbyte p
      if failed rv then some ([], s', ps)
      else (s'.drain (nr + 1) len ps).map fun r => (rv.setWidth 8 :: r.1, r.2)
    else some ([], s, p :: ps)

/-- `_read_r` on the standard input: the bytes stored, and the polls that are left. A call
that has not returned when the polls run out gives nothing. -/
def State.read_r (s : State) (len : Nat) (ps : List Poll) :
    Option (List Byte × State × List Poll) :=
  match s.wait ps with
  | none => none
  | some (c, s', ps') => (s'.drain 1 len ps').map fun r => (c :: r.1, r.2)

/-- What the calls that return have returned, one after the other. -/
def State.calls (s : State) : List Nat → List Poll → List (List Byte)
  | [], _ => []
  | len :: lens, ps =>
    match s.read_r len ps with
    | none => []
    | some (out, s', ps') => out :: s'.calls lens ps'

def start : State := ⟨false, []⟩

/-- The bytes that come in. -/
def received : List Poll → List Byte
  | [] => []
  | .empty _ :: ps => received ps
  | .byte b :: ps => b :: received ps

/-- Each CR LF pair and each lone CR is one LF. -/
def translate : List Byte → List Byte
  | [] => []
  | b :: bs =>
    if b = CR then
      match bs with
      | [] => [LF]
      | c :: cs => if c = LF then LF :: translate cs else LF :: translate (c :: cs)
    else b :: translate bs

/-- What is still to be returned, where the last byte may have been a CR. -/
def pending (lastWasCr : Bool) (bs : List Byte) : List Byte :=
  if lastWasCr ∧ bs.head? = some LF then translate bs.tail else translate bs

/-- The last of the polls found nothing. -/
def Quiet (ps : List Poll) : Prop := ∀ p ∈ ps.getLast?, ∃ stale, p = .empty stale

variable {s t : State} {p : Poll} {ps rest : List Poll} {out : List Byte} {b c : Byte}
  {len nr : Nat}

theorem translate_cr (bs : List Byte) : translate (CR :: bs) = LF :: pending true bs := by
  cases bs with
  | nil => rfl
  | cons c cs =>
    unfold translate pending
    by_cases hc : c = LF <;> simp [hc]

theorem translate_ne (h : b ≠ CR) (bs : List Byte) : translate (b :: bs) = b :: translate bs := by
  rw [translate.eq_def]
  exact if_neg h

theorem pending_false (bs : List Byte) : pending false bs = translate bs := by
  simp [pending]

theorem inbyte_fst (s : State) (p : Poll) :
    (s.inbyte p).1 = (crIntoNl s.lastWasCr p.uartrx).1 := rfl

theorem inbyte_lastWasCr (s : State) (p : Poll) :
    (s.inbyte p).2.lastWasCr = (crIntoNl s.lastWasCr p.uartrx).2 := by
  unfold State.inbyte
  dsimp only
  split_ifs <;> rfl

theorem crIntoNl_empty (cr : Bool) (stale : Byte) :
    crIntoNl cr (Poll.empty stale).uartrx = (-1, cr) := by
  have h : (Poll.empty stale).uartrx &&& 0x0100 ≠ 0 := by
    unfold Poll.uartrx
    revert stale
    decide
  exact if_pos h

theorem crIntoNl_byte (cr : Bool) (b : Byte) : crIntoNl cr (b.setWidth 32) =
    if b = CR then (LF.setWidth 32, true)
    else if b = LF then if cr then (-1, false) else (b.setWidth 32, false)
    else (b.setWidth 32, false) := by
  revert b cr
  decide

theorem failed_byte (b : Byte) : failed (b.setWidth 32) = false := by
  revert b
  decide

theorem setWidth_byte (b : Byte) : (b.setWidth 32).setWidth 8 = b := by
  revert b
  decide

/-- A poll gives the next byte that is to be returned, or none and the rest is as before. -/
theorem inbyte_pending (s : State) (p : Poll) (ps : List Poll) :
    pending s.lastWasCr (received (p :: ps)) =
      (if failed (s.inbyte p).1 then [] else [(s.inbyte p).1.setWidth 8]) ++
        pending (s.inbyte p).2.lastWasCr (received ps) := by
  rw [inbyte_fst, inbyte_lastWasCr]
  cases p with
  | empty stale =>
    have hf : failed (-1) = true := by decide
    simp only [crIntoNl_empty, hf, if_true, List.nil_append]
    rfl
  | byte b =>
    change pending s.lastWasCr (b :: received ps) = _
    rw [show (Poll.byte b).uartrx = b.setWidth 32 from rfl, crIntoNl_byte]
    by_cases hcr : b = CR
    · subst hcr
      have hnot : ¬ (s.lastWasCr = true ∧ (CR :: received ps).head? = some LF) :=
        fun h => absurd (Option.some.inj h.2) (by decide)
      rw [if_pos rfl, pending, if_neg hnot, translate_cr, failed_byte, setWidth_byte]
      rfl
    · rw [if_neg hcr]
      by_cases hlf : b = LF
      · subst hlf
        cases hlast : s.lastWasCr with
        | true =>
          rw [if_pos rfl, if_pos rfl, pending_false]
          rfl
        | false =>
          rw [if_pos rfl, if_neg Bool.false_ne_true, failed_byte, setWidth_byte, pending_false,
            pending_false, translate_ne hcr]
          rfl
      · have hnot : ¬ (s.lastWasCr = true ∧ (b :: received ps).head? = some LF) :=
          fun h => hlf (Option.some.inj h.2)
        rw [if_neg hlf, pending, if_neg hnot, translate_ne hcr, failed_byte, setWidth_byte,
          pending_false]
        rfl

theorem wait_pending (h : s.wait ps = some (c, t, rest)) :
    pending s.lastWasCr (received ps) = c :: pending t.lastWasCr (received rest) := by
  induction ps generalizing s with
  | nil => cases h
  | cons p ps ih =>
    rw [inbyte_pending]
    unfold State.wait at h
    dsimp only at h
    by_cases hf : failed (s.inbyte p).1
    · rw [if_pos hf] at h ⊢
      exact ih h
    · rw [if_neg hf] at h ⊢
      cases h
      rfl

theorem drain_pending (h : s.drain nr len ps = some (out, t, rest)) (hn : nr ≤ len) :
    pending s.lastWasCr (received ps) = out ++ pending t.lastWasCr (received rest) ∧
      nr + out.length ≤ len := by
  induction ps generalizing s nr out with
  | nil =>
    unfold State.drain at h
    split_ifs at h
    cases h
    exact ⟨rfl, hn⟩
  | cons p ps ih =>
    unfold State.drain at h
    dsimp only at h
    by_cases hlt : nr < len
    · rw [if_pos hlt] at h
      rw [inbyte_pending]
      by_cases hf : failed (s.inbyte p).1
      · rw [if_pos hf] at h ⊢
        cases h
        exact ⟨rfl, hn⟩
      · rw [if_neg hf] at h ⊢
        obtain ⟨⟨more, u⟩, hd, he⟩ := Option.map_eq_some_iff.1 h
        cases he
        obtain ⟨hp, hl⟩ := ih hd hlt
        refine ⟨congrArg (_ :: ·) hp, ?_⟩
        change nr + (more.length + 1) ≤ len
        omega
    · rw [if_neg hlt] at h
      cases h
      exact ⟨rfl, hn⟩

/-- A call returns the next bytes of what is to be returned, at least one and no more than
it was asked for. -/
theorem read_r_pending (h : s.read_r len ps = some (out, t, rest)) (hn : 1 ≤ len) :
    pending s.lastWasCr (received ps) = out ++ pending t.lastWasCr (received rest) ∧
      1 ≤ out.length ∧ out.length ≤ len := by
  unfold State.read_r at h
  cases hw : s.wait ps with
  | none =>
    rw [hw] at h
    cases h
  | some r =>
    obtain ⟨c, u, mid⟩ := r
    rw [hw] at h
    obtain ⟨⟨more, v⟩, hd, he⟩ := Option.map_eq_some_iff.1 h
    cases he
    obtain ⟨hp, hl⟩ := drain_pending hd hn
    rw [wait_pending hw, hp]
    refine ⟨rfl, Nat.succ_pos _, ?_⟩
    change more.length + 1 ≤ len
    omega

theorem failed_empty (s : State) (stale : Byte) : failed (s.inbyte (.empty stale)).1 = true := by
  have h : failed (-1) = true := by decide
  rw [inbyte_fst, crIntoNl_empty]
  exact h

theorem pending_nil (cr : Bool) : pending cr [] = [] := by
  simp [pending, translate]

theorem Quiet.of_suffix (h : Quiet ps) (hr : rest <:+ ps) : Quiet rest := by
  obtain ⟨before, rfl⟩ := hr
  intro p hp
  refine h p ?_
  rw [Option.mem_def] at hp ⊢
  rw [List.getLast?_append, hp]
  rfl

/-- The poll that gives the first byte is not the last of a quiet list. -/
theorem wait_some (h : s.wait ps = some (c, t, rest)) :
    rest <:+ ps ∧ (Quiet ps → rest ≠ []) := by
  induction ps generalizing s with
  | nil => cases h
  | cons p ps ih =>
    unfold State.wait at h
    dsimp only at h
    by_cases hf : failed (s.inbyte p).1
    · rw [if_pos hf] at h
      obtain ⟨hs, hq⟩ := ih h
      exact ⟨hs.trans (List.suffix_cons p ps), fun hquiet =>
        hq (hquiet.of_suffix (List.suffix_cons p ps))⟩
    · rw [if_neg hf] at h
      cases h
      refine ⟨List.suffix_cons p _, fun hquiet hnil => ?_⟩
      subst hnil
      obtain ⟨stale, rfl⟩ := hquiet p rfl
      exact hf (failed_empty s stale)

theorem wait_none (h : s.wait ps = none) : pending s.lastWasCr (received ps) = [] := by
  induction ps generalizing s with
  | nil => exact pending_nil _
  | cons p ps ih =>
    unfold State.wait at h
    dsimp only at h
    by_cases hf : failed (s.inbyte p).1
    · rw [if_pos hf] at h
      rw [inbyte_pending, if_pos hf]
      exact ih h
    · rw [if_neg hf] at h
      cases h

theorem drain_suffix (h : s.drain nr len ps = some (out, t, rest)) : rest <:+ ps := by
  induction ps generalizing s nr out with
  | nil =>
    unfold State.drain at h
    split_ifs at h
    cases h
    exact List.suffix_refl _
  | cons p ps ih =>
    unfold State.drain at h
    dsimp only at h
    by_cases hlt : nr < len
    · rw [if_pos hlt] at h
      by_cases hf : failed (s.inbyte p).1
      · rw [if_pos hf] at h
        cases h
        exact List.suffix_cons p _
      · rw [if_neg hf] at h
        obtain ⟨⟨more, u⟩, hd, he⟩ := Option.map_eq_some_iff.1 h
        cases he
        exact (ih hd).trans (List.suffix_cons p ps)
    · rw [if_neg hlt] at h
      cases h
      exact List.suffix_refl _

/-- The second loop goes on only as long as each poll gives a byte. -/
theorem drain_none (h : s.drain nr len ps = none) :
    nr + (pending s.lastWasCr (received ps)).length < len ∧ (Quiet ps → ps = []) := by
  induction ps generalizing s nr with
  | nil =>
    unfold State.drain at h
    split_ifs at h with hlt
    rw [received, pending_nil]
    exact ⟨hlt, fun _ => rfl⟩
  | cons p ps ih =>
    unfold State.drain at h
    dsimp only at h
    split_ifs at h with hlt hf
    obtain ⟨hl, hq⟩ := ih (Option.map_eq_none_iff.1 h)
    rw [inbyte_pending, if_neg hf, List.singleton_append, List.length_cons]
    refine ⟨by omega, fun hquiet => ?_⟩
    have hnil := hq (hquiet.of_suffix (List.suffix_cons p ps))
    subst hnil
    obtain ⟨stale, rfl⟩ := hquiet p rfl
    exact absurd (failed_empty s stale) hf

theorem read_r_suffix (h : s.read_r len ps = some (out, t, rest)) : rest <:+ ps := by
  unfold State.read_r at h
  cases hw : s.wait ps with
  | none =>
    rw [hw] at h
    cases h
  | some r =>
    obtain ⟨c, u, mid⟩ := r
    rw [hw] at h
    obtain ⟨⟨more, v⟩, hd, he⟩ := Option.map_eq_some_iff.1 h
    cases he
    exact (drain_suffix hd).trans (wait_some hw).1

/-- A call that has not returned has been given less than it asked for, and nothing if the last
poll found nothing. -/
theorem read_r_none (h : s.read_r len ps = none) (hn : 1 ≤ len) :
    (pending s.lastWasCr (received ps)).length < len ∧
      (Quiet ps → pending s.lastWasCr (received ps) = []) := by
  unfold State.read_r at h
  cases hw : s.wait ps with
  | none =>
    rw [wait_none hw]
    exact ⟨hn, fun _ => rfl⟩
  | some r =>
    obtain ⟨c, u, mid⟩ := r
    rw [hw] at h
    obtain ⟨hl, hq⟩ := drain_none (Option.map_eq_none_iff.1 h)
    obtain ⟨hs, hmid⟩ := wait_some hw
    rw [wait_pending hw, List.length_cons]
    exact ⟨by omega, fun hquiet => absurd (hq (hquiet.of_suffix hs)) (hmid hquiet)⟩

theorem calls_prefix (lens : List Nat) (hl : ∀ n ∈ lens, 1 ≤ n) :
    (s.calls lens ps).flatten <+: pending s.lastWasCr (received ps) := by
  induction lens generalizing s ps with
  | nil => exact List.nil_prefix
  | cons len lens ih =>
    unfold State.calls
    cases hr : s.read_r len ps with
    | none => exact List.nil_prefix
    | some r =>
      obtain ⟨out, t, rest⟩ := r
      obtain ⟨hp, -, -⟩ := read_r_pending hr (hl len List.mem_cons_self)
      rw [hp, List.flatten_cons]
      exact (List.prefix_append_right_inj out).2 (ih fun n hn => hl n (List.mem_cons_of_mem _ hn))

theorem calls_lengths (lens : List Nat) (hl : ∀ n ∈ lens, 1 ≤ n) {k len : Nat}
    (hk : (s.calls lens ps)[k]? = some out) (hlen : lens[k]? = some len) :
    1 ≤ out.length ∧ out.length ≤ len := by
  induction lens generalizing s ps k with
  | nil => cases hlen
  | cons n lens ih =>
    unfold State.calls at hk
    cases hr : s.read_r n ps with
    | none =>
      rw [hr] at hk
      cases hk
    | some r =>
      obtain ⟨first, t, rest⟩ := r
      rw [hr] at hk
      cases k with
      | zero =>
        cases hk
        cases hlen
        exact (read_r_pending hr (hl _ List.mem_cons_self)).2
      | succ k => exact ih (fun n hn => hl n (List.mem_cons_of_mem _ hn)) hk hlen

/-- What the call after those that have returned has been given. -/
theorem calls_rest (lens : List Nat) (hl : ∀ n ∈ lens, 1 ≤ n)
    (hlen : lens[(s.calls lens ps).length]? = some len) :
    ∃ rest, pending s.lastWasCr (received ps) = (s.calls lens ps).flatten ++ rest ∧
      rest.length < len ∧ (Quiet ps → rest = []) := by
  induction lens generalizing s ps with
  | nil => cases hlen
  | cons n lens ih =>
    unfold State.calls at hlen ⊢
    cases hr : s.read_r n ps with
    | none =>
      rw [hr] at hlen
      cases hlen
      exact ⟨_, rfl, read_r_none hr (hl _ List.mem_cons_self)⟩
    | some r =>
      obtain ⟨out, t, polls⟩ := r
      rw [hr] at hlen
      obtain ⟨hp, -, -⟩ := read_r_pending hr (hl n List.mem_cons_self)
      obtain ⟨rest, hrest, hlt, hq⟩ := ih (fun n hn => hl n (List.mem_cons_of_mem _ hn)) hlen
      refine ⟨rest, ?_, hlt, fun hquiet => hq (hquiet.of_suffix (read_r_suffix hr))⟩
      rw [hp, hrest, List.flatten_cons, List.append_assoc]

/-- Whatever comes in and however long it takes, the calls return the translated input from
its beginning, each at least one byte and no more than it was asked for. A call that has not
returned has been given less than that, and nothing if the last poll found nothing. -/
theorem console_input (ps : List Poll) (lens : List Nat) (hl : ∀ n ∈ lens, 1 ≤ n) :
    (start.calls lens ps).flatten <+: translate (received ps) ∧
      (∀ (k : Nat) (out : List Byte) (len : Nat), (start.calls lens ps)[k]? = some out →
        lens[k]? = some len → 1 ≤ out.length ∧ out.length ≤ len) ∧
      ∀ len, lens[(start.calls lens ps).length]? = some len →
        ∃ rest, translate (received ps) = (start.calls lens ps).flatten ++ rest ∧
          rest.length < len ∧ (Quiet ps → rest = []) := by
  rw [← pending_false]
  refine ⟨?_, fun k out len hk hlen => calls_lengths lens hl hk hlen,
    fun len hlen => calls_rest lens hl hlen⟩
  exact calls_prefix lens hl

/-- Two CRs and an LF over two calls. -/
def twoLines : List Poll :=
  [.empty 0, .byte CR, .byte CR, .empty CR, .byte LF, .byte 0x41, .empty 0x41]

theorem console_input_twoLines :
    (start.calls [4, 4, 1] twoLines).flatten <+: translate (received twoLines) ∧
      (∀ (k : Nat) (out : List Byte) (len : Nat), (start.calls [4, 4, 1] twoLines)[k]? = some out →
        [4, 4, 1][k]? = some len → 1 ≤ out.length ∧ out.length ≤ len) ∧
      ∀ len, [4, 4, 1][(start.calls [4, 4, 1] twoLines).length]? = some len →
        ∃ rest, translate (received twoLines) =
            (start.calls [4, 4, 1] twoLines).flatten ++ rest ∧
          rest.length < len ∧ (Quiet twoLines → rest = []) :=
  console_input twoLines [4, 4, 1] (by decide)

example : start.calls [4, 4, 1] twoLines = [[LF, LF], [0x41]] := by decide

end S6Soc.Console
