import Mathlib
import S6Soc.ReplyCodes

/-! `veVMD2`, the part of `wbubus` that has the bus: the commands of a host that reads, whatever
the bus does with them. -/
namespace S6Soc.WbUbus
open Clocked TtyBus

/-- The states 0 to 5 of `Vg`; there are no others. -/
inductive Place
  | ready | read | write | drain | written | failed
  deriving DecidableEq

/-- The registers of `veVMD2`: `eg` is reported while `Ee`. `Xg` says that the address goes up,
`Yg` that the host has set it since it was last reported. Requests left are counted by `bg`,
`Zg` and `ch` say that there is one, and those not answered by `Wg`. -/
structure Commander where
  Vg : Place
  Ee : Bool
  eg : Coded
  oWbCyc : Bool
  oWbStb : Bool
  oWbWe : Bool
  oWbAddr : Word
  oWbData : Word
  Xg : Bool
  Yg : Bool
  Wg : BitVec 10
  bg : BitVec 10
  Zg : Bool
  ah : Bool
  bh : Bool
  ch : Bool

/-- A reset, a command `ff` while `Ce`, and the bus. -/
structure BusClock where
  Qe : Bool
  Ce : Bool
  ff : Codeword
  iWbAck : Bool
  iWbStall : Bool
  iWbErr : Bool
  iWbData : Word

def Commander.Tf (s : Commander) : Bool :=
  s.Vg != .ready && s.Vg != .written && s.Vg != .failed

/-- `[9:0]`. -/
def Codeword.count (w : Codeword) : BitVec 10 := w.rest.extractLsb' 0 10

def BusClock.error (i : BusClock) : Coded := ⟨.status .error, i.iWbData.extractLsb' 0 30⟩

/-- Waiting for a command. -/
def Commander.onReady (s : Commander) (i : BusClock) : Commander :=
  let kind := i.ff.first.extractLsb' 2 4
  let s := { s with
    oWbCyc := false
    oWbStb := false
    Ee := false
    Xg := i.ff.inc
    eg := ⟨.address s.oWbAddr, 0⟩
    oWbWe := i.ff.first.extractLsb' 4 2 != 3
    oWbData := i.ff.value }
  if !i.Ce then s
  else if kind = 0 then { s with oWbAddr := i.ff.address }
  else if kind.extractLsb' 1 3 = 1 then { s with oWbAddr := s.oWbAddr + i.ff.value }
  else if kind.extractLsb' 2 2 = 1 then { s with Vg := .write, oWbCyc := true, oWbStb := true }
  else if kind.extractLsb' 2 2 = 3 then
    { s with Ee := s.Yg, Vg := .read, oWbCyc := true, oWbStb := true }
  else s

/-- One request after the other. -/
def Commander.onRead (s : Commander) (i : BusClock) : Commander where
  Vg :=
    if !i.iWbStall && (s.ch || s.Zg) then .drain else if i.iWbErr then .ready else .read
  Ee := i.iWbErr || i.iWbAck
  eg := if i.iWbErr then i.error else ⟨.data s.Xg i.iWbData, 0⟩
  oWbCyc := true
  oWbStb := !(!i.iWbStall && (s.ch || s.Zg))
  oWbWe := s.oWbWe
  oWbAddr := if s.Xg && !i.iWbStall then s.oWbAddr + 1 else s.oWbAddr
  oWbData := s.oWbData
  Xg := s.Xg
  Yg := s.Yg
  Wg := s.Wg
  bg := s.bg
  Zg := s.Zg
  ah := s.ah
  bh := s.bh
  ch := s.ch

def Commander.onWrite (s : Commander) (i : BusClock) : Commander :=
  { s with
    oWbCyc := !i.iWbErr
    oWbStb := !i.iWbErr && i.iWbStall
    eg := if i.iWbErr then i.error else ⟨.status .ack, i.iWbData.extractLsb' 0 30⟩
    oWbAddr := if s.Xg && !i.iWbStall then s.oWbAddr + 1 else s.oWbAddr
    Ee := i.iWbErr || !i.iWbStall
    Vg := if i.iWbErr then .failed else if !i.iWbStall then .written else .write }

/-- Waiting for the answers. -/
def Commander.onDrain (s : Commander) (i : BusClock) : Commander :=
  let ends := s.ah && i.iWbAck || s.bh || i.iWbErr
  { s with
    oWbCyc := !ends
    oWbStb := false
    eg := if i.iWbErr then i.error else ⟨.data s.Xg i.iWbData, 0⟩
    Ee := i.iWbAck && !s.oWbWe || i.iWbErr
    Vg := if ends then .ready else .drain }

/-- A write has been taken, and another one may follow. `Tg` is a command that may not. -/
def Commander.onWritten (s : Commander) (i : BusClock) : Commander :=
  let Sg := i.Ce && i.ff.first.extractLsb' 4 2 == 1
  let Rg := i.Ce && i.ff.first == 46
  let Tg := i.Ce && i.ff.first.extractLsb' 3 3 != 3 && i.ff.first != 46
  let s := { s with
    eg := i.error
    Ee := i.iWbErr || Tg
    oWbData := i.ff.value
    oWbCyc := true
    oWbStb := false }
  if Tg then { s with oWbCyc := false, Vg := .ready }
  else if i.iWbErr then { s with oWbCyc := false, Vg := .failed }
  else if Sg then { s with Vg := .write, oWbStb := true }
  else if Rg then { s with Vg := .drain }
  else s

def Commander.onFailed (s : Commander) (i : BusClock) : Commander :=
  let Rg := i.Ce && i.ff.first == 46
  let Tg := i.Ce && i.ff.first.extractLsb' 3 3 != 3 && i.ff.first != 46
  { s with
    oWbCyc := false
    oWbStb := false
    eg := i.error
    Ee := Tg
    Vg := if Rg || Tg then .ready else .failed }

def Commander.act (s : Commander) (i : BusClock) : Commander :=
  if i.Qe then
    { s with
      Vg := .ready
      Ee := true
      eg := ⟨.status .reset, i.iWbData.extractLsb' 0 30⟩
      oWbCyc := false
      oWbStb := false }
  else
    match s.Vg with
    | .ready => s.onReady i
    | .read => s.onRead i
    | .write => s.onWrite i
    | .drain => s.onDrain i
    | .written => s.onWritten i
    | .failed => s.onFailed i

def Commander.next (s : Commander) (i : BusClock) : Commander :=
  { s.act i with
    Yg :=
      if i.Qe then true
      else if !s.oWbCyc && i.Ce && !i.ff.first.getLsbD 5 then true
      else if s.oWbCyc then false
      else s.Yg
    Wg :=
      if !s.oWbCyc then 0
      else if s.oWbStb && !i.iWbStall && !i.iWbAck then s.Wg + 1
      else if (!s.oWbStb || i.iWbStall) && i.iWbAck then s.Wg - 1
      else s.Wg
    ah := !s.oWbStb && s.Wg == 1 || s.oWbStb && s.Wg == 0
    bh := !s.oWbStb && s.Wg == 0
    bg :=
      if !s.oWbStb then i.ff.count
      else if !i.iWbStall && s.bg != 0 then s.bg - 1
      else s.bg
    ch := !s.oWbCyc && i.ff.count == 1
    Zg := s.oWbStb && s.bg.extractLsb' 2 8 == 0 &&
      (!s.bg.getLsbD 1 || !s.bg.getLsbD 0 && !i.iWbStall) }

/-- The machine, the commands it has taken, the addresses that the bus has taken requests for,
how many of them it has not answered, the words it has answered, and what has been reported. -/
structure Commanding where
  ve : Commander
  obeyed : List Codeword
  asked : List Word
  owed : ℕ
  answers : List Word
  said : List Report

def Commanding.asks (t : Commanding) (i : BusClock) : Bool := t.ve.oWbStb && !i.iWbStall

def Commanding.next (t : Commanding) (i : BusClock) : Commanding where
  ve := t.ve.next i
  obeyed := if i.Ce then t.obeyed ++ [i.ff] else t.obeyed
  asked := if t.asks i then t.asked ++ [t.ve.oWbAddr] else t.asked
  owed := t.owed + (t.asks i).toNat - i.iWbAck.toNat
  answers := if i.iWbAck then t.answers ++ [i.iWbData] else t.answers
  said := if t.ve.Ee then t.said ++ [t.ve.eg.report] else t.said

/-- An address, words to be read, one at least, or a code that means nothing here. -/
def Codeword.Reads (w : Codeword) : Prop :=
  w.first.extractLsb' 2 4 = 0 ∨ w.first.extractLsb' 3 3 = 1 ∨ w.first.extractLsb' 4 2 = 2 ∨
    w.first.extractLsb' 4 2 = 3 ∧ w.count ≠ 0

/-- Commands come when the machine is not busy, and the bus answers what it has been asked, without
errors. The bus registers have no initial values, but the FPGA starts them as zero. -/
def commanding : System Commanding BusClock where
  init t := t.ve.Vg = .ready ∧ t.ve.Ee = false ∧ t.ve.Yg = true ∧ t.ve.oWbCyc = false ∧
    t.ve.oWbStb = false ∧ t.obeyed = [] ∧ t.asked = [] ∧ t.owed = 0 ∧ t.answers = [] ∧ t.said = []
  allowed t i := i.Qe = false ∧ i.iWbErr = false ∧ (i.Ce → t.ve.Tf = false ∧ i.ff.Reads) ∧
    (i.iWbAck → 0 < t.owed ∨ t.asks i)
  next := Commanding.next

/-- What the host may rely on: where the next word is read from, and whether it has set that
itself since it was told. -/
structure Script where
  addr : Word
  fresh : Bool

/-- How many words a command reads. -/
def Codeword.reads (w : Codeword) : ℕ := if w.first.extractLsb' 4 2 = 3 then w.count.toNat else 0

/-- Where the command `w` reads its `k`-th word. -/
def Script.place (x : Script) (w : Codeword) (k : ℕ) : Word :=
  if w.inc then x.addr + BitVec.ofNat 32 k else x.addr

def Script.next (x : Script) (w : Codeword) : Script :=
  if w.first.extractLsb' 2 4 = 0 then ⟨w.address, true⟩
  else if w.first.extractLsb' 3 3 = 1 then ⟨x.addr + w.value, true⟩
  else if w.first.extractLsb' 4 2 = 3 then ⟨x.place w w.reads, false⟩
  else x

def Script.after (x : Script) (ws : List Codeword) : Script := ws.foldl Script.next x

/-- The addresses read from. -/
def Script.requests (x : Script) : List Codeword → List Word
  | [] => []
  | w :: ws => (List.range w.reads).map (x.place w) ++ (x.next w).requests ws

/-- The address comes before the first word read from it. -/
def Script.opening (x : Script) (w : Codeword) : List Report :=
  if 0 < w.reads ∧ x.fresh then [.address x.addr] else []

/-- What is reported when the words read are `vs`. -/
def Script.reports (x : Script) : List Codeword → List Word → List Report
  | [], _ => []
  | w :: ws, vs => x.opening w ++ (vs.take w.reads).map (.data w.inc) ++
      (x.next w).reports ws (vs.drop w.reads)

def total (ws : List Codeword) : ℕ := (ws.map Codeword.reads).sum

def Commander.offered (s : Commander) : List Report := if s.Ee then [s.eg.report] else []

variable {t : Commanding} {i : BusClock} {x : Script} {ws : List Codeword} {w : Codeword}
  {us vs : List Word} {k : ℕ}

theorem Script.requests_snoc (x : Script) (ws : List Codeword) (w : Codeword) :
    x.requests (ws ++ [w]) =
      x.requests ws ++ (List.range w.reads).map ((x.after ws).place w) := by
  induction ws generalizing x with
  | nil => exact List.append_nil _
  | cons v ws ih =>
    rw [List.cons_append, Script.requests, ih, ← List.append_assoc]
    rfl

theorem Script.reports_snoc (x : Script) (w : Codeword) (hu : us.length = total ws)
    (hv : vs.length ≤ w.reads) : x.reports (ws ++ [w]) (us ++ vs) =
      x.reports ws us ++ (x.after ws).opening w ++ vs.map (.data w.inc) := by
  induction ws generalizing x us with
  | nil =>
    have hnil : us = [] := List.eq_nil_of_length_eq_zero hu
    have hone : x.reports [w] vs =
        x.opening w ++ (vs.take w.reads).map (.data w.inc) ++ [] := rfl
    rw [hnil, List.nil_append, List.nil_append, hone, List.take_of_length_le hv, List.append_nil]
    rfl
  | cons v ws ih =>
    have hle : v.reads ≤ us.length := by
      rw [hu, total, List.map_cons, List.sum_cons]
      exact Nat.le_add_right ..
    have hrest : (us.drop v.reads).length = total ws := by
      rw [List.length_drop, hu, total, List.map_cons, List.sum_cons]
      exact Nat.add_sub_cancel_left ..
    rw [List.cons_append, Script.reports, Script.reports, List.take_append_of_le_length hle,
      List.drop_append_of_le_length hle, ih _ hrest]
    simp only [List.append_assoc]
    rfl

theorem Script.after_snoc (x : Script) (ws : List Codeword) (w : Codeword) :
    x.after (ws ++ [w]) = (x.after ws).next w := List.foldl_concat ..

theorem total_snoc (ws : List Codeword) (w : Codeword) :
    total (ws ++ [w]) = total ws + w.reads := by
  simp [total]

theorem Script.place_succ (x : Script) (w : Codeword) (k : ℕ) :
    x.place w (k + 1) = if w.inc then x.place w k + 1 else x.place w k := by
  unfold Script.place
  split_ifs
  · rw [BitVec.ofNat_add, ← BitVec.add_assoc]
    rfl
  · rfl

/-- Between two commands. -/
structure Commanding.Ready (x : Script) (t : Commanding) : Prop where
  Vg : t.ve.Vg = .ready
  cyc : t.ve.oWbCyc = false
  stb : t.ve.oWbStb = false
  asked : t.asked = x.requests t.obeyed
  owed : t.owed = 0
  answers : t.answers.length = total t.obeyed
  script : x.after t.obeyed = ⟨t.ve.oWbAddr, t.ve.Yg⟩
  said : t.said ++ t.ve.offered = x.reports t.obeyed t.answers

/-- The command `w` came after the commands `ws`, `us` are the words those read, and `vs` what
has been answered of the `k` words asked for since. -/
structure Commanding.Serves (x : Script) (t : Commanding) (ws : List Codeword) (w : Codeword)
    (us vs : List Word) (k : ℕ) : Prop where
  cyc : t.ve.oWbCyc = true
  we : t.ve.oWbWe = false
  kind : w.first.extractLsb' 4 2 = 3
  obeyed : t.obeyed = ws ++ [w]
  asked : t.asked = x.requests ws ++ (List.range k).map ((x.after ws).place w)
  answers : t.answers = us ++ vs
  before : us.length = total ws
  owed : vs.length + t.owed = k
  Wg : t.ve.Wg.toNat = t.owed
  addr : t.ve.oWbAddr = (x.after ws).place w k
  Xg : t.ve.Xg = w.inc
  le : k ≤ w.reads
  said : t.said ++ t.ve.offered = x.reports t.obeyed t.answers

/-- The words are being asked for. -/
structure Commanding.Asks (t : Commanding) (w : Codeword) (k : ℕ) : Prop where
  Vg : t.ve.Vg = .read
  stb : t.ve.oWbStb = true
  bg : t.ve.bg.toNat + k = w.reads
  pos : 0 < t.ve.bg.toNat
  last : (t.ve.ch || t.ve.Zg) = (t.ve.bg == 1)

/-- All have been asked for. -/
structure Commanding.Drains (t : Commanding) (w : Codeword) (k : ℕ) : Prop where
  Vg : t.ve.Vg = .drain
  stb : t.ve.oWbStb = false
  all : k = w.reads
  Yg : t.ve.Yg = false
  ah : t.ve.ah → t.owed ≤ 1
  bh : t.ve.bh → t.owed = 0

/-- A run of a host that reads. -/
def Commanding.Kept (x : Script) (t : Commanding) : Prop :=
  t.Ready x ∨ ∃ ws w us vs k, t.Serves x ws w us vs k ∧ (t.Asks w k ∨ t.Drains w k)

theorem Codeword.reads_of_kind (h : w.first.extractLsb' 4 2 = 3) : w.reads = w.count.toNat :=
  if_pos h

theorem Commanding.said_next (t : Commanding) (i : BusClock) :
    (t.next i).said = t.said ++ t.ve.offered := by
  change (if t.ve.Ee then t.said ++ [t.ve.eg.report] else t.said) = _
  unfold Commander.offered
  split_ifs
  · rfl
  · exact (List.append_nil _).symm

theorem Commanding.asks_of_stb (h : t.ve.oWbStb = false) : t.asks i = false := by
  rw [Commanding.asks, h, Bool.false_and]

/-- What a clock makes of the machine while there is no reset. -/
theorem Commander.next_ready {s : Commander} (hQ : i.Qe = false) (hV : s.Vg = .ready) :
    s.act i = s.onReady i := by
  simp [Commander.act, hQ, hV]

theorem Commander.next_read {s : Commander} (hQ : i.Qe = false) (hV : s.Vg = .read) :
    s.act i = s.onRead i := by
  simp [Commander.act, hQ, hV]

theorem Commander.next_drain {s : Commander} (hQ : i.Qe = false) (hV : s.Vg = .drain) :
    s.act i = s.onDrain i := by
  simp [Commander.act, hQ, hV]

/-- The host sets the address, says nothing, or reads. -/
theorem Codeword.Reads.cases (h : w.Reads) :
    (w.first.extractLsb' 2 4 = 0 ∨ w.first.extractLsb' 2 4 ≠ 0 ∧ w.first.extractLsb' 3 3 = 1) ∧
        w.first.extractLsb' 4 2 ≠ 3 ∧ w.first.getLsbD 5 = false ∨
      (w.first.extractLsb' 2 4 ≠ 0 ∧ w.first.extractLsb' 3 3 ≠ 1) ∧
        w.first.extractLsb' 4 2 = 2 ∧ w.first.getLsbD 5 ∨
      (w.first.extractLsb' 2 4 ≠ 0 ∧ w.first.extractLsb' 3 3 ≠ 1) ∧
        w.first.extractLsb' 4 2 = 3 ∧ w.count ≠ 0 := by
  have hall : ∀ b : BitVec 6,
      (b.extractLsb' 2 4 = 0 → b.extractLsb' 4 2 ≠ 3 ∧ b.getLsbD 5 = false) ∧
      (b.extractLsb' 3 3 = 1 → b.extractLsb' 4 2 ≠ 3 ∧ b.getLsbD 5 = false) ∧
      (b.extractLsb' 4 2 = 2 →
        (b.extractLsb' 2 4 ≠ 0 ∧ b.extractLsb' 3 3 ≠ 1) ∧ b.getLsbD 5 = true) ∧
      (b.extractLsb' 4 2 = 3 → b.extractLsb' 2 4 ≠ 0 ∧ b.extractLsb' 3 3 ≠ 1) := by
    decide
  obtain ⟨h0, h1, h2, h3⟩ := hall w.first
  by_cases hz : w.first.extractLsb' 2 4 = 0
  · exact Or.inl ⟨Or.inl hz, h0 hz⟩
  · rcases h with h | h | h | ⟨h, hc⟩
    · exact absurd h hz
    · exact Or.inl ⟨Or.inr ⟨hz, h⟩, h1 h⟩
    · obtain ⟨hn, hb⟩ := h2 h
      exact Or.inr (Or.inl ⟨hn, h, hb⟩)
    · exact Or.inr (Or.inr ⟨h3 h, h, hc⟩)

/-- Nothing is owed, and nothing is answered. -/
theorem Commanding.Ready.not_acked (h : t.Ready x) (ha : commanding.allowed t i) :
    i.iWbAck = false := by
  by_contra hack
  rcases ha.2.2.2 (by simpa using hack) with howed | hasks
  · rw [h.owed] at howed
    exact absurd howed (Nat.lt_irrefl 0)
  · exact absurd ((asks_of_stb h.stb).symm.trans hasks) (by decide)

theorem Commanding.Ready.quiet (h : t.Ready x) (ha : commanding.allowed t i) (hC : i.Ce = false) :
    (t.next i).Ready x := by
  have hQ := ha.1
  have hasks : t.asks i = false := asks_of_stb h.stb
  have hno : i.iWbAck = false := h.not_acked ha
  have hact : t.ve.act i = t.ve.onReady i := Commander.next_ready hQ h.Vg
  have hve : (t.next i).ve = t.ve.next i := rfl
  have hobeyed : (t.next i).obeyed = t.obeyed := by simp [Commanding.next, hC]
  have hanswers : (t.next i).answers = t.answers := by simp [Commanding.next, hno]
  have hEe : (t.next i).ve.Ee = false := by
    simp [hve, Commander.next, hact, Commander.onReady, hC]
  refine ⟨?_, ?_, ?_, ?_, ?_, ?_, ?_, ?_⟩
  · simp [hve, Commander.next, hact, Commander.onReady, hC, h.Vg]
  · simp [hve, Commander.next, hact, Commander.onReady, hC]
  · simp [hve, Commander.next, hact, Commander.onReady, hC]
  · rw [hobeyed, ← h.asked]
    simp [Commanding.next, hasks]
  · simp [Commanding.next, hasks, hno, h.owed]
  · rw [hanswers, hobeyed, h.answers]
  · rw [hobeyed, h.script]
    simp [hve, Commander.next, hact, Commander.onReady, hC, hQ, h.cyc]
  · have hoffered : (t.next i).ve.offered = [] := if_neg (by rw [hEe]; decide)
    rw [t.said_next i, hobeyed, hanswers, ← h.said, hoffered, List.append_nil]

/-- A command that reads nothing is obeyed in a clock. -/
theorem Commanding.Ready.settles (h : t.Ready x) (ha : commanding.allowed t i) (hC : i.Ce)
    (hreads : i.ff.reads = 0) (hV : (t.next i).ve.Vg = .ready) (hE : (t.next i).ve.Ee = false)
    (hcyc : (t.next i).ve.oWbCyc = false) (hstb : (t.next i).ve.oWbStb = false)
    (hscript : (x.after t.obeyed).next i.ff = ⟨(t.next i).ve.oWbAddr, (t.next i).ve.Yg⟩) :
    (t.next i).Ready x := by
  have hasks : t.asks i = false := asks_of_stb h.stb
  have hno : i.iWbAck = false := h.not_acked ha
  have hobeyed : (t.next i).obeyed = t.obeyed ++ [i.ff] := if_pos hC
  have hanswers : (t.next i).answers = t.answers := by simp [Commanding.next, hno]
  refine ⟨hV, hcyc, hstb, ?_, ?_, ?_, ?_, ?_⟩
  · rw [hobeyed, Script.requests_snoc, hreads, List.range_zero, List.map_nil, List.append_nil,
      ← h.asked]
    simp [Commanding.next, hasks]
  · simp [Commanding.next, hasks, hno, h.owed]
  · rw [hanswers, hobeyed, total_snoc, hreads, h.answers, Nat.add_zero]
  · rw [hobeyed, Script.after_snoc, hscript]
  · have hopening : (x.after t.obeyed).opening i.ff = [] := if_neg (by rw [hreads]; simp)
    have hnone : ([] : List Word).length ≤ i.ff.reads := Nat.zero_le _
    have hnil := x.reports_snoc i.ff h.answers hnone
    rw [List.append_nil, hopening, List.append_nil, List.map_nil, List.append_nil] at hnil
    have hoffered : (t.next i).ve.offered = [] := if_neg (by rw [hE]; decide)
    rw [t.said_next i, hobeyed, hanswers, hnil, ← h.said, hoffered, List.append_nil]

theorem third_bits : ∀ b : BitVec 6, (b.extractLsb' 2 4).extractLsb' 1 3 = b.extractLsb' 3 3 ∧
    (b.extractLsb' 2 4).extractLsb' 2 2 = b.extractLsb' 4 2 := by
  decide

theorem Commanding.Yg_next (t : Commanding) (i : BusClock) : (t.next i).ve.Yg =
    if i.Qe then true else if !t.ve.oWbCyc && i.Ce && !i.ff.first.getLsbD 5 then true
      else if t.ve.oWbCyc then false else t.ve.Yg := rfl

theorem Commanding.Ready.moves (h : t.Ready x) (ha : commanding.allowed t i) (hC : i.Ce)
    (hkind : i.ff.first.extractLsb' 2 4 = 0 ∨
      i.ff.first.extractLsb' 2 4 ≠ 0 ∧ i.ff.first.extractLsb' 3 3 = 1)
    (hnot : i.ff.first.extractLsb' 4 2 ≠ 3) (hbit : i.ff.first.getLsbD 5 = false) :
    (t.next i).Ready x := by
  have hact : t.ve.act i = t.ve.onReady i := Commander.next_ready ha.1 h.Vg
  have hYg : (t.next i).ve.Yg = true := by
    rw [t.Yg_next i, h.cyc, hC, hbit]
    simp
  have hready : (t.ve.onReady i).Vg = .ready ∧ (t.ve.onReady i).Ee = false ∧
      (t.ve.onReady i).oWbCyc = false ∧ (t.ve.onReady i).oWbStb = false ∧
      (x.after t.obeyed).next i.ff = ⟨(t.ve.onReady i).oWbAddr, true⟩ := by
    rw [h.script]
    unfold Commander.onReady Script.next
    dsimp only
    rw [if_neg (by rw [hC]; decide), (third_bits _).1]
    rcases hkind with h0 | ⟨h0, h1⟩
    · rw [if_pos h0, if_pos h0]
      exact ⟨h.Vg, rfl, rfl, rfl, rfl⟩
    · rw [if_neg h0, if_pos h1, if_neg h0, if_pos h1]
      exact ⟨h.Vg, rfl, rfl, rfl, rfl⟩
  rw [← hact] at hready
  obtain ⟨hV, hE, hcyc, hstb, hscript⟩ := hready
  exact h.settles ha hC (if_neg hnot) hV hE hcyc hstb (hYg ▸ hscript)

theorem Commanding.Ready.ignores (h : t.Ready x) (ha : commanding.allowed t i) (hC : i.Ce)
    (h0 : i.ff.first.extractLsb' 2 4 ≠ 0) (h1 : i.ff.first.extractLsb' 3 3 ≠ 1)
    (h2 : i.ff.first.extractLsb' 4 2 = 2) (hbit : i.ff.first.getLsbD 5) :
    (t.next i).Ready x := by
  have hact : t.ve.act i = t.ve.onReady i := Commander.next_ready ha.1 h.Vg
  have hnot : i.ff.first.extractLsb' 4 2 ≠ 3 := by
    rw [h2]
    decide
  have hYg : (t.next i).ve.Yg = t.ve.Yg := by
    rw [t.Yg_next i, ha.1, h.cyc, hbit]
    simp
  have hready : (t.ve.onReady i).Vg = .ready ∧ (t.ve.onReady i).Ee = false ∧
      (t.ve.onReady i).oWbCyc = false ∧ (t.ve.onReady i).oWbStb = false ∧
      (x.after t.obeyed).next i.ff = ⟨(t.ve.onReady i).oWbAddr, t.ve.Yg⟩ := by
    rw [h.script]
    unfold Commander.onReady Script.next
    dsimp only
    rw [if_neg (by rw [hC]; decide), (third_bits _).1, (third_bits _).2, if_neg h0, if_neg h1,
      if_neg (by rw [h2]; decide), if_neg hnot, if_neg h0, if_neg h1, if_neg hnot]
    exact ⟨h.Vg, rfl, rfl, rfl, rfl⟩
  rw [← hact] at hready
  obtain ⟨hV, hE, hcyc, hstb, hscript⟩ := hready
  exact h.settles ha hC (if_neg hnot) hV hE hcyc hstb (hYg ▸ hscript)

theorem Commanding.Ready.starts (h : t.Ready x) (ha : commanding.allowed t i) (hC : i.Ce)
    (h0 : i.ff.first.extractLsb' 2 4 ≠ 0) (h1 : i.ff.first.extractLsb' 3 3 ≠ 1)
    (h3 : i.ff.first.extractLsb' 4 2 = 3) (hcount : i.ff.count ≠ 0) :
    (t.next i).Serves x t.obeyed i.ff t.answers [] 0 ∧ (t.next i).Asks i.ff 0 := by
  have hQ := ha.1
  have hasks : t.asks i = false := asks_of_stb h.stb
  have hno : i.iWbAck = false := h.not_acked ha
  have hact : t.ve.act i = t.ve.onReady i := Commander.next_ready hQ h.Vg
  have hreads : i.ff.reads = i.ff.count.toNat := Codeword.reads_of_kind h3
  have hpos : 0 < i.ff.count.toNat :=
    Nat.pos_of_ne_zero fun h => hcount (BitVec.eq_of_toNat_eq h)
  obtain ⟨hthird, hfourth⟩ := third_bits i.ff.first
  have hready : t.ve.act i = { t.ve with
      Xg := i.ff.inc
      eg := ⟨.address t.ve.oWbAddr, 0⟩
      oWbWe := false
      oWbData := i.ff.value
      Ee := t.ve.Yg
      Vg := .read
      oWbCyc := true
      oWbStb := true } := by
    rw [hact, Commander.onReady]
    dsimp only
    rw [if_neg (by rw [hC]; decide), if_neg h0, hthird, if_neg h1, hfourth, h3,
      if_neg (by decide), if_pos rfl]
    rfl
  have hobeyed : (t.next i).obeyed = t.obeyed ++ [i.ff] := if_pos hC
  have hanswers : (t.next i).answers = t.answers := by simp [Commanding.next, hno]
  have hve : (t.next i).ve = t.ve.next i := rfl
  refine ⟨⟨?_, ?_, h3, hobeyed, ?_, ?_, h.answers, ?_, ?_, ?_, ?_, Nat.zero_le _, ?_⟩,
    ⟨?_, ?_, ?_, ?_, ?_⟩⟩
  · simp only [hve, Commander.next, hready]
  · simp only [hve, Commander.next, hready]
  · rw [List.range_zero, List.map_nil, List.append_nil, ← h.asked]
    simp [Commanding.next, hasks]
  · rw [hanswers, List.append_nil]
  · simp [Commanding.next, hasks, hno, h.owed]
  · simp [Commander.next, h.cyc, Commanding.next, hasks, hno, h.owed]
  · rw [h.script]
    simp [hve, Commander.next, hready, Script.place]
  · simp only [hve, Commander.next, hready]
  · have hopening : (x.after t.obeyed).opening i.ff = (t.next i).ve.offered := by
      have hEe : (t.next i).ve.Ee = t.ve.Yg := by simp only [hve, Commander.next, hready]
      have heg : (t.next i).ve.eg.report = .address t.ve.oWbAddr := by
        simp only [hve, Commander.next, hready]
      rw [Script.opening, h.script, hreads, Commander.offered, hEe, heg]
      simp only [hpos, true_and]
    have hnone : ([] : List Word).length ≤ i.ff.reads := Nat.zero_le _
    have hnil := x.reports_snoc i.ff h.answers hnone
    rw [List.append_nil, hopening, List.map_nil, List.append_nil] at hnil
    rw [t.said_next i, hobeyed, hanswers, hnil, h.said]
  · simp only [hve, Commander.next, hready]
  · simp only [hve, Commander.next, hready]
  · rw [hreads]
    simp [hve, Commander.next, h.stb]
  · simpa [hve, Commander.next, h.stb] using hpos
  · simp [hve, Commander.next, h.stb, h.cyc]

theorem toNat_pred {b : BitVec 10} (h : 0 < b.toNat) : (b - 1).toNat = b.toNat - 1 :=
  BitVec.toNat_sub_of_le (by rw [BitVec.le_def]; exact h)

theorem Commanding.owed_next (t : Commanding) (i : BusClock) :
    (t.next i).owed = t.owed + (t.asks i).toNat - i.iWbAck.toNat := rfl

/-- What is answered is owed, or has just been asked. -/
theorem Commanding.acked_le (ha : commanding.allowed t i) :
    i.iWbAck.toNat ≤ t.owed + (t.asks i).toNat := by
  cases hack : i.iWbAck with
  | false => exact Nat.zero_le _
  | true =>
    rcases ha.2.2.2 hack with howed | hasks
    · exact Nat.le_add_right_of_le howed
    · rw [hasks]
      exact Nat.le_add_left ..

/-- `Wg` counts what is owed. -/
theorem Commanding.Serves.Wg_next (h : t.Serves x ws w us vs k) (ha : commanding.allowed t i)
    (hk : k + (t.asks i).toNat ≤ w.reads) : (t.next i).ve.Wg.toNat = (t.next i).owed := by
  have hWg : (t.next i).ve.Wg = if t.asks i && !i.iWbAck then t.ve.Wg + 1
      else if !t.asks i && i.iWbAck then t.ve.Wg - 1 else t.ve.Wg := by
    change (if !t.ve.oWbCyc then _ else _) = _
    rw [h.cyc, Commanding.asks]
    cases t.ve.oWbStb <;> cases i.iWbStall <;> cases i.iWbAck <;> rfl
  have hfew : w.reads < 1024 := by
    rw [Codeword.reads_of_kind h.kind]
    exact w.count.isLt
  have hold := h.owed
  have hW := h.Wg
  have hle := acked_le ha
  rw [hWg, t.owed_next i]
  cases hasks : t.asks i <;> cases hack : i.iWbAck
  · simpa using hW
  · rw [hasks, hack] at hle
    simpa [hW] using toNat_pred (b := t.ve.Wg) (by rw [hW]; exact hle)
  · rw [hasks] at hk
    have hadd : (t.ve.Wg + 1).toNat = t.ve.Wg.toNat + 1 := by
      rw [BitVec.toNat_add]
      refine Nat.mod_eq_of_lt ?_
      rw [hW]
      exact lt_of_le_of_lt (Nat.le_trans (Nat.add_le_add_right (by omega) _) hk) hfew
    simpa [hW] using hadd
  · simpa using hW

/-- What a clock does to the words asked for and answered, wherever the command stands. -/
structure Commanding.Answers (x : Script) (t : Commanding) (ws : List Codeword) (w : Codeword)
    (us vs : List Word) (k : ℕ) : Prop where
  obeyed : t.obeyed = ws ++ [w]
  asked : t.asked = x.requests ws ++ (List.range k).map ((x.after ws).place w)
  answers : t.answers = us ++ vs
  owed : vs.length + t.owed = k
  Wg : t.ve.Wg.toNat = t.owed
  said : t.said ++ t.ve.offered = x.reports t.obeyed t.answers

theorem Commanding.Serves.answers_next (h : t.Serves x ws w us vs k)
    (ha : commanding.allowed t i) (hTf : t.ve.Tf) (hEe : (t.next i).ve.Ee = i.iWbAck)
    (heg : (t.next i).ve.eg = ⟨.data t.ve.Xg i.iWbData, 0⟩)
    (hk : k + (t.asks i).toNat ≤ w.reads) :
    (t.next i).Answers x ws w us (vs ++ if i.iWbAck then [i.iWbData] else [])
      (k + (t.asks i).toNat) := by
  have hC : i.Ce = false := by
    by_contra hc
    exact absurd ((ha.2.2.1 (by simpa using hc)).1.symm.trans hTf) (by decide)
  have hobeyed : (t.next i).obeyed = ws ++ [w] := by
    rw [← h.obeyed]
    exact if_neg (by rw [hC]; decide)
  have hanswers : (t.next i).answers = us ++ (vs ++ if i.iWbAck then [i.iWbData] else []) := by
    rw [← List.append_assoc, ← h.answers]
    change (if i.iWbAck then t.answers ++ [i.iWbData] else t.answers) = _
    split_ifs
    · rfl
    · exact (List.append_nil _).symm
  have howed : (vs ++ if i.iWbAck then [i.iWbData] else []).length + (t.next i).owed =
      k + (t.asks i).toNat := by
    have hlen : (vs ++ if i.iWbAck then [i.iWbData] else []).length =
        vs.length + i.iWbAck.toNat := by
      cases i.iWbAck <;> simp
    have hle := acked_le ha
    have hold := h.owed
    rw [hlen, t.owed_next i]
    omega
  refine ⟨hobeyed, ?_, hanswers, howed, h.Wg_next ha hk, ?_⟩
  · change (if t.asks i then t.asked ++ [t.ve.oWbAddr] else t.asked) = _
    rw [h.asked, h.addr]
    cases t.asks i
    · rfl
    · simp [List.range_succ]
  · have hlen : (vs ++ if i.iWbAck then [i.iWbData] else []).length ≤ w.reads := by omega
    have hall := x.reports_snoc w h.before hlen
    have hvs : vs.length ≤ w.reads := by
      have := h.owed
      have := h.le
      omega
    have hold := x.reports_snoc w h.before hvs
    have hsaid := h.said
    rw [h.obeyed, h.answers, hold] at hsaid
    rw [hobeyed, hanswers, hall, t.said_next i, hsaid, Commander.offered, hEe, heg, h.Xg,
      List.map_append, List.append_assoc, List.append_assoc]
    cases i.iWbAck <;> simp

/-- One or two words are left, and the next request is the last one. -/
theorem last_cases : ∀ (b : BitVec 10) (stall : Bool), 0 < b.toNat → (stall ∨ b ≠ 1) →
    (b.extractLsb' 2 8 == 0 && (!b.getLsbD 1 || !b.getLsbD 0 && !stall)) =
      ((if stall then b else b - 1) == 1) := by
  decide +kernel

theorem Commanding.Asks.bg_next (hs : t.Asks w k) (i : BusClock) :
    (t.next i).ve.bg = if i.iWbStall then t.ve.bg else t.ve.bg - 1 := by
  have hne : (t.ve.bg != 0) = true := by
    refine bne_iff_ne.mpr fun h0 => ?_
    have hpos := hs.pos
    rw [h0] at hpos
    exact absurd hpos (by decide)
  change (if !t.ve.oWbStb then i.ff.count
    else if !i.iWbStall && t.ve.bg != 0 then t.ve.bg - 1 else t.ve.bg) = _
  rw [hs.stb, hne]
  cases i.iWbStall <;> rfl

theorem Commanding.Asks.asks_eq (hs : t.Asks w k) (i : BusClock) : t.asks i = !i.iWbStall := by
  rw [Commanding.asks, hs.stb, Bool.true_and]

/-- The request is not taken, or it is not the last. -/
theorem Commanding.Asks.more (hs : t.Asks w k) (ha : commanding.allowed t i)
    (hcyc : t.ve.oWbCyc) (hgo : i.iWbStall = true ∨ t.ve.bg ≠ 1) :
    (t.next i).Asks w (k + (t.asks i).toNat) := by
  have hact : t.ve.act i = t.ve.onRead i := Commander.next_read ha.1 hs.Vg
  have hve : (t.next i).ve = t.ve.next i := rfl
  have hb := hs.bg
  have hpos := hs.pos
  have hmore : (!i.iWbStall && (t.ve.ch || t.ve.Zg)) = false := by
    rw [hs.last]
    rcases hgo with hst | hne
    · rw [hst]
      rfl
    · rw [beq_false_of_ne hne, Bool.and_false]
  refine ⟨?_, ?_, ?_, ?_, ?_⟩
  · simp only [hve, Commander.next, hact, Commander.onRead, hmore, ha.2.1, Bool.false_eq_true,
      if_false]
  · simp only [hve, Commander.next, hact, Commander.onRead, hmore, Bool.not_false]
  · rw [hs.bg_next i, hs.asks_eq i]
    cases hst : i.iWbStall with
    | true => simpa using hb
    | false =>
      have hone : (!false).toNat = 1 := rfl
      rw [if_neg (by decide), toNat_pred hpos, hone]
      omega
  · rw [hs.bg_next i]
    cases hst : i.iWbStall with
    | true => exact hpos
    | false =>
      have hne : t.ve.bg ≠ 1 := hgo.resolve_left (by rw [hst]; decide)
      have hone : t.ve.bg.toNat ≠ 1 := fun h1 => hne (BitVec.eq_of_toNat_eq h1)
      rw [if_neg (by decide), toNat_pred hpos]
      omega
  · have hch : (t.next i).ve.ch = false := by simp [hve, Commander.next, hcyc]
    have hZg : (t.next i).ve.Zg = (t.ve.bg.extractLsb' 2 8 == 0 &&
        (!t.ve.bg.getLsbD 1 || !t.ve.bg.getLsbD 0 && !i.iWbStall)) := by
      change (t.ve.oWbStb && _ && _) = _
      rw [hs.stb, Bool.true_and]
    rw [hch, Bool.false_or, hZg, hs.bg_next i]
    exact last_cases _ _ hpos hgo

/-- The last request is taken. -/
theorem Commanding.Asks.done (hs : t.Asks w k) (ha : commanding.allowed t i) (hcyc : t.ve.oWbCyc)
    (hWg : t.ve.Wg.toNat = t.owed) (hst : i.iWbStall = false) (hone : t.ve.bg = 1) :
    (t.next i).Drains w (k + (t.asks i).toNat) := by
  have hact : t.ve.act i = t.ve.onRead i := Commander.next_read ha.1 hs.Vg
  have hve : (t.next i).ve = t.ve.next i := rfl
  have hb := hs.bg
  have hlast : (!i.iWbStall && (t.ve.ch || t.ve.Zg)) = true := by
    rw [hs.last, hst, hone]
    rfl
  have hasks : (t.asks i).toNat = 1 := by
    rw [hs.asks_eq i, hst]
    rfl
  refine ⟨?_, ?_, ?_, ?_, fun hah => ?_, fun hbh => ?_⟩
  · simp only [hve, Commander.next, hact, Commander.onRead, hlast, if_true]
  · simp only [hve, Commander.next, hact, Commander.onRead, hlast, Bool.not_true]
  · rw [hone] at hb
    rw [hasks, ← hb]
    exact Nat.add_comm _ _
  · simp [hve, Commander.next, ha.1, hcyc]
  · have hzero : t.ve.Wg = 0 := by simpa [hve, Commander.next, hs.stb] using hah
    have hnone : t.owed = 0 := by
      rw [← hWg, hzero]
      rfl
    rw [t.owed_next i, hnone, hasks]
    omega
  · simp [hve, Commander.next, hs.stb] at hbh

theorem Commanding.Serves.asks_next (h : t.Serves x ws w us vs k) (hs : t.Asks w k)
    (ha : commanding.allowed t i) : ∃ vs k, (t.next i).Serves x ws w us vs k ∧
      ((t.next i).Asks w k ∨ (t.next i).Drains w k) := by
  have hQ := ha.1
  have herr := ha.2.1
  have hact : t.ve.act i = t.ve.onRead i := Commander.next_read hQ hs.Vg
  have hve : (t.next i).ve = t.ve.next i := rfl
  have hTf : t.ve.Tf := by rw [Commander.Tf, hs.Vg]; rfl
  have hasks := hs.asks_eq i
  have hEe : (t.next i).ve.Ee = i.iWbAck := by
    simp [hve, Commander.next, hact, Commander.onRead, herr]
  have heg : (t.next i).ve.eg = ⟨.data t.ve.Xg i.iWbData, 0⟩ := by
    simp [hve, Commander.next, hact, Commander.onRead, herr]
  have hle : k + (t.asks i).toNat ≤ w.reads := by
    have hb := hs.bg
    have hpos := hs.pos
    have := Bool.toNat_le (t.asks i)
    omega
  obtain ⟨hobeyed, hasked, hanswers, howed, hWg, hsaid⟩ := h.answers_next ha hTf hEe heg hle
  have haddr : (t.next i).ve.oWbAddr = (x.after ws).place w (k + (t.asks i).toNat) := by
    have hnext : (t.next i).ve.oWbAddr =
        if t.ve.Xg && !i.iWbStall then t.ve.oWbAddr + 1 else t.ve.oWbAddr := by
      simp [hve, Commander.next, hact, Commander.onRead]
    rw [hnext, h.addr, h.Xg, hasks]
    cases i.iWbStall
    · simp [Script.place_succ]
    · simp
  have hserves : (t.next i).Serves x ws w us (vs ++ if i.iWbAck then [i.iWbData] else [])
      (k + (t.asks i).toNat) := by
    refine ⟨?_, ?_, h.kind, hobeyed, hasked, hanswers, h.before, howed, hWg, haddr, ?_, hle, hsaid⟩
    · simp [hve, Commander.next, hact, Commander.onRead]
    · simp [hve, Commander.next, hact, Commander.onRead, h.we]
    · simp [hve, Commander.next, hact, Commander.onRead, h.Xg]
  refine ⟨_, _, hserves, ?_⟩
  by_cases hgo : i.iWbStall = true ∨ t.ve.bg ≠ 1
  · exact Or.inl (hs.more ha h.cyc hgo)
  · obtain ⟨hst, hone⟩ : i.iWbStall = false ∧ t.ve.bg = 1 := by simpa using hgo
    exact Or.inr (hs.done ha h.cyc h.Wg hst hone)

theorem Commanding.Serves.drains_next (h : t.Serves x ws w us vs k) (hs : t.Drains w k)
    (ha : commanding.allowed t i) : (t.next i).Ready x ∨
      ∃ vs, (t.next i).Serves x ws w us vs k ∧ (t.next i).Drains w k := by
  have hQ := ha.1
  have herr := ha.2.1
  have hact : t.ve.act i = t.ve.onDrain i := Commander.next_drain hQ hs.Vg
  have hve : (t.next i).ve = t.ve.next i := rfl
  have hTf : t.ve.Tf := by rw [Commander.Tf, hs.Vg]; rfl
  have hasks : t.asks i = false := asks_of_stb hs.stb
  have hEe : (t.next i).ve.Ee = i.iWbAck := by
    simp [hve, Commander.next, hact, Commander.onDrain, herr, h.we]
  have heg : (t.next i).ve.eg = ⟨.data t.ve.Xg i.iWbData, 0⟩ := by
    simp [hve, Commander.next, hact, Commander.onDrain, herr]
  have hle : k + (t.asks i).toNat ≤ w.reads := by
    rw [hasks]
    exact h.le
  have hnext := h.answers_next ha hTf hEe heg hle
  rw [hasks, Bool.toNat_false, Nat.add_zero] at hnext
  obtain ⟨hobeyed, hasked, hanswers, howed, hWg, hsaid⟩ := hnext
  have howes : (t.next i).owed = t.owed - i.iWbAck.toNat := by
    rw [t.owed_next i, hasks]
    rfl
  have haddr : (t.next i).ve.oWbAddr = (x.after ws).place w k := by
    rw [← h.addr]
    simp [hve, Commander.next, hact, Commander.onDrain]
  have hYg : (t.next i).ve.Yg = false := by simp [hve, Commander.next, hQ, h.cyc]
  have hstb : (t.next i).ve.oWbStb = false := by
    simp [hve, Commander.next, hact, Commander.onDrain]
  by_cases hends : (t.ve.ah && i.iWbAck || t.ve.bh) = true
  · have hnone : (t.next i).owed = 0 := by
      rw [howes]
      rcases (Bool.or_eq_true ..).mp hends with hah | hbh
      · obtain ⟨hah, hack⟩ : t.ve.ah = true ∧ i.iWbAck = true := by simpa using hah
        have hone := hs.ah hah
        rw [hack]
        exact Nat.sub_eq_zero_of_le hone
      · rw [hs.bh hbh, Nat.zero_sub]
    refine Or.inl ⟨?_, ?_, hstb, ?_, hnone, ?_, ?_, hsaid⟩
    · simp only [hve, Commander.next, hact, Commander.onDrain, herr, hends, Bool.or_false, if_true]
    · simp only [hve, Commander.next, hact, Commander.onDrain, herr, hends, Bool.or_false,
        Bool.not_true]
    · rw [hobeyed, hasked, Script.requests_snoc, hs.all]
    · rw [hnone, Nat.add_zero] at howed
      rw [hobeyed, hanswers, total_snoc, List.length_append, h.before, howed, hs.all]
    · have hkinds := (by decide : ∀ b : BitVec 6, b.extractLsb' 4 2 = 3 →
        b.extractLsb' 2 4 ≠ 0 ∧ b.extractLsb' 3 3 ≠ 1) _ h.kind
      rw [hobeyed, Script.after_snoc, Script.next, if_neg hkinds.1, if_neg hkinds.2,
        if_pos h.kind, haddr, hYg, hs.all]
  · refine Or.inr ⟨_, ⟨?_, ?_, h.kind, hobeyed, hasked, hanswers, h.before, howed, hWg, haddr,
      ?_, h.le, hsaid⟩, ⟨?_, hstb, hs.all, hYg, fun hah => ?_, fun hbh => ?_⟩⟩
    · simp only [hve, Commander.next, hact, Commander.onDrain, herr, Bool.or_false]
      rw [Bool.eq_false_iff.mpr hends]
      rfl
    · simp [hve, Commander.next, hact, Commander.onDrain, h.we]
    · simp [hve, Commander.next, hact, Commander.onDrain, h.Xg]
    · simp only [hve, Commander.next, hact, Commander.onDrain, herr, Bool.or_false]
      exact if_neg hends
    · have hone : t.ve.Wg = 1 := by simpa [hve, Commander.next, hs.stb] using hah
      have howed' : t.owed = 1 := by rw [← h.Wg, hone]; rfl
      rw [howes, howed']
      exact Nat.sub_le ..
    · have hzero : t.ve.Wg = 0 := by simpa [hve, Commander.next, hs.stb] using hbh
      have howed' : t.owed = 0 := by rw [← h.Wg, hzero]; rfl
      rw [howes, howed', Nat.zero_sub]

theorem Commanding.Kept.next (h : t.Kept x) (ha : commanding.allowed t i) : (t.next i).Kept x := by
  rcases h with h | ⟨ws, w, us, vs, k, h, hs | hs⟩
  · rcases Bool.eq_false_or_eq_true i.Ce with hC | hC
    · rcases (ha.2.2.1 hC).2.cases with ⟨hkind, hnot, hbit⟩ | ⟨⟨h0, h1⟩, h2, hbit⟩ |
        ⟨⟨h0, h1⟩, h3, hcount⟩
      · exact Or.inl (h.moves ha hC hkind hnot hbit)
      · exact Or.inl (h.ignores ha hC h0 h1 h2 hbit)
      · obtain ⟨hserves, hasks⟩ := h.starts ha hC h0 h1 h3 hcount
        exact Or.inr ⟨_, _, _, _, _, hserves, Or.inl hasks⟩
    · exact Or.inl (h.quiet ha hC)
  · obtain ⟨vs, k, hserves, hplace⟩ := h.asks_next hs ha
    exact Or.inr ⟨_, _, _, _, _, hserves, hplace⟩
  · rcases h.drains_next hs ha with hready | ⟨vs, hserves, hdrains⟩
    · exact Or.inl hready
    · exact Or.inr ⟨_, _, _, _, _, hserves, Or.inr hdrains⟩

theorem Commanding.kept_init (h : commanding.init t) : t.Kept ⟨t.ve.oWbAddr, true⟩ := by
  obtain ⟨hV, hE, hY, hcyc, hstb, hobeyed, hasked, howed, hanswers, hsaid⟩ := h
  refine Or.inl ⟨hV, hcyc, hstb, ?_, howed, ?_, ?_, ?_⟩
  · rw [hasked, hobeyed]
    rfl
  · rw [hanswers, hobeyed]
    rfl
  · rw [hobeyed, hY]
    rfl
  · have hoffered : t.ve.offered = [] := if_neg (by rw [hE]; decide)
    rw [hsaid, hobeyed, hanswers, hoffered]
    rfl

theorem Commanding.kept_of_reachable (h : commanding.Reachable t) :
    ∃ x : Script, x.fresh ∧ t.Kept x := by
  refine h.invariant (P := fun u => ∃ x : Script, x.fresh ∧ u.Kept x)
    (fun s hs => ⟨_, rfl, Commanding.kept_init hs⟩) ?_
  rintro u i ⟨x, hx, hu⟩ ha
  exact ⟨x, hx, hu.next ha⟩

theorem Commanding.Kept.asked (h : t.Kept x) : t.asked <+: x.requests t.obeyed := by
  rcases h with hr | ⟨ws, w, us, vs, k, hs, -⟩
  · rw [hr.asked]
  · rw [hs.asked, hs.obeyed, Script.requests_snoc]
    refine (List.prefix_append_right_inj _).mpr (List.IsPrefix.map _ ?_)
    obtain ⟨m, hm⟩ := Nat.exists_eq_add_of_le hs.le
    rw [hm, List.range_add]
    exact List.prefix_append ..

theorem Commanding.Kept.said (h : t.Kept x) :
    t.said ++ t.ve.offered = x.reports t.obeyed t.answers := by
  rcases h with hr | ⟨ws, w, us, vs, k, hs, -⟩
  · exact hr.said
  · exact hs.said

theorem Commanding.Kept.ready (h : t.Kept x) (hTf : t.ve.Tf = false) : t.Ready x := by
  rcases h with hr | ⟨ws, w, us, vs, k, -, hp | hp⟩
  · exact hr
  · rw [Commander.Tf, hp.Vg] at hTf
    exact absurd hTf (by decide)
  · rw [Commander.Tf, hp.Vg] at hTf
    exact absurd hTf (by decide)

/-- Whatever the host reads, and however the bus stalls and answers: the requests are those of
the commands, in order, and no others; what is reported is each address that the host has set,
before it is first read from, and each answer, in order and once; and when the next command may
come all that was asked for has been answered. -/
theorem commands_served (h : commanding.Reachable t) : ∃ x : Script, x.fresh ∧
    t.asked <+: x.requests t.obeyed ∧
      t.said ++ t.ve.offered = x.reports t.obeyed t.answers ∧
        (t.ve.Tf = false → t.asked = x.requests t.obeyed ∧ t.owed = 0 ∧
          t.answers.length = total t.obeyed) := by
  obtain ⟨x, hfresh, hk⟩ := Commanding.kept_of_reachable h
  refine ⟨x, hfresh, hk.asked, hk.said, fun hTf => ?_⟩
  have hr := hk.ready hTf
  exact ⟨hr.asked, hr.owed, hr.answers⟩

/-- From power up, with everything zero that has no initial value. -/
def newCommanding : Commanding where
  ve := ⟨.ready, false, ⟨.status .idle, 0⟩, false, false, false, 0, 0, false, true, 0, 0, false,
    false, false, false⟩
  obeyed := []
  asked := []
  owed := 0
  answers := []
  said := []

theorem init_newCommanding : commanding.init newCommanding :=
  ⟨rfl, rfl, rfl, rfl, rfl, rfl, rfl, rfl, rfl, rfl⟩

/-- Three words are read from 256 on; the bus stalls the first request, and answers twice while
it is still being asked. -/
def readThree : List BusClock :=
  [⟨false, true, ⟨0, 0x100⟩, false, false, false, 0⟩,
    ⟨false, true, ⟨49, 3⟩, false, false, false, 0⟩,
    ⟨false, false, ⟨0, 0⟩, false, true, false, 0⟩,
    ⟨false, false, ⟨0, 0⟩, false, false, false, 0⟩,
    ⟨false, false, ⟨0, 0⟩, true, false, false, 7⟩,
    ⟨false, false, ⟨0, 0⟩, true, false, false, 8⟩,
    ⟨false, false, ⟨0, 0⟩, false, false, false, 0⟩,
    ⟨false, false, ⟨0, 0⟩, true, false, false, 9⟩,
    ⟨false, false, ⟨0, 0⟩, false, false, false, 0⟩,
    ⟨false, false, ⟨0, 0⟩, false, false, false, 0⟩]

instance Codeword.decidableReads (w : Codeword) : Decidable w.Reads :=
  inferInstanceAs (Decidable (_ ∨ _ ∨ _ ∨ _))

instance Commanding.decidableAllowed (t : Commanding) (i : BusClock) :
    Decidable (commanding.allowed t i) :=
  inferInstanceAs (Decidable (_ ∧ _ ∧ (i.Ce → t.ve.Tf = false ∧ i.ff.Reads) ∧
    (i.iWbAck → 0 < t.owed ∨ t.asks i)))

theorem commands_served_three :
    let t := readThree.foldl commanding.next newCommanding
    (∃ x : Script, x.fresh ∧ t.asked = x.requests t.obeyed ∧
      t.said ++ t.ve.offered = x.reports t.obeyed t.answers) ∧
      t.asked = [256, 257, 258] ∧
      t.said = [.address 256, .data true 7, .data true 8, .data true 9] := by
  have hr : commanding.Reachable newCommanding := System.reachable_init init_newCommanding
  have ha : commanding.Admits newCommanding readThree := by decide
  obtain ⟨x, hfresh, -, hsaid, hall⟩ := commands_served (hr.foldl ha)
  exact ⟨⟨x, hfresh, (hall (by decide)).1, hsaid⟩, by decide, by decide⟩

end S6Soc.WbUbus
