import Mathlib
import S6Soc.ReadIdle

/-! What `wbubus` reports to the host, and how it compresses the reports. The source is
obfuscated: registers have the names they have there, without the `VMD2` at the end. -/
namespace S6Soc.WbUbus
open Clocked TtyBus

/-- The 36 bits of a codeword: what becomes its first character, and the other five. -/
structure Codeword where
  first : BitVec 6
  rest : BitVec 30
  deriving DecidableEq

inductive Status
  | idle | busy | ack | reset | interrupt | error
  deriving DecidableEq

def Status.code : Status → BitVec 6
  | .idle => 0
  | .busy => 1
  | .ack => 2
  | .reset => 3
  | .interrupt => 4
  | .error => 5

/-- Addresses are those of words. `inc` says that the address goes up with the word. -/
inductive Report
  | status (c : Status)
  | address (a : Word)
  | data (inc : Bool) (v : Word)
  deriving DecidableEq

/-- As the reports come; the bits of a status beyond its first character are anything. -/
def Report.codeword (spare : BitVec 30) : Report → Codeword
  | .status c => ⟨c.code, spare⟩
  | .address a => ⟨(2 : BitVec 4) ++ a.extractLsb' 30 2, a.extractLsb' 0 30⟩
  | .data inc v => ⟨(7 : BitVec 3) ++ v.extractLsb' 30 2 ++ BitVec.ofBool inc, v.extractLsb' 0 30⟩

/-- A codeword that stands for a report, with the bits of it that may be anything. -/
structure Coded where
  report : Report
  spare : BitVec 30

def Coded.codeword (c : Coded) : Codeword := c.report.codeword c.spare

/-- `[31:0]`. -/
def Codeword.address (w : Codeword) : Word := w.first.extractLsb' 0 2 ++ w.rest

/-- `{ [32:31], [29:0] }`. -/
def Codeword.value (w : Codeword) : Word := w.first.extractLsb' 1 2 ++ w.rest

/-- `[30]`. -/
def Codeword.inc (w : Codeword) : Bool := w.first.getLsbD 0

/-- `[35:33]` is 7: data in full. -/
def Codeword.raw (w : Codeword) : Bool := w.first.extractLsb' 3 3 == 7

/-- `[35:33]` is 1: an address. -/
def Codeword.isAddress (w : Codeword) : Bool := w.first.extractLsb' 3 3 == 1

/-- Addresses lose the characters that are zero. -/
def shortened (w : Codeword) : Codeword :=
  let a := w.address
  if w.first.extractLsb' 2 4 ≠ 2 then w
  else if a.extractLsb' 6 26 = 0 then ⟨12, a.extractLsb' 0 6 ++ (0 : BitVec 24)⟩
  else if a.extractLsb' 12 20 = 0 then ⟨13, a.extractLsb' 0 12 ++ (0 : BitVec 18)⟩
  else if a.extractLsb' 18 14 = 0 then ⟨14, a.extractLsb' 0 18 ++ (0 : BitVec 12)⟩
  else if a.extractLsb' 24 8 = 0 then ⟨15, a.extractLsb' 0 24 ++ (0 : BitVec 6)⟩
  else w

/-- The registers of `FfVMD2`. A codeword `tg` waits to be passed on while `sg`; `Ie` are the
last words that went out in full, the next one goes to `vg`, and `wg` says that the table has
been filled. The search looks at `zg`, then has what is there in `Oe` and compares it, and
holds how far back it has found the word in `Ig`. -/
structure State where
  sg : Bool
  tg : Codeword
  Pe : Bool
  vg : BitVec 10
  wg : Bool
  Ie : BitVec 10 → Word
  xg : Bool
  yg : Bool
  zg : BitVec 10
  Ag : BitVec 10
  Cg : BitVec 2
  Dg : Bool
  Eg : Bool
  Oe : Word
  Fg : BitVec 10
  Hg : BitVec 10
  Bg : Bool
  Ig : BitVec 10
  Jg : Bool
  Kg : Bool
  Lg : Bool
  Pg : Codeword

/-- `Ce` offers the codeword `ff`; with `dg` the next stage takes nothing. -/
structure Input where
  Ce : Bool
  ff : Codeword
  dg : Bool

def State.rg (s : State) : Codeword := if s.Pe then s.Pg else s.tg

def State.ug (s : State) (dg : Bool) : Bool := s.sg && !dg

/-- The search goes one entry further back. -/
def State.searches (s : State) : Bool := !s.xg && !s.Bg && (!s.Ag.getLsbD 9 || s.wg)

/-- The word of `tg` lies `Ig` entries back. -/
def State.tableCode (s : State) : Codeword :=
  let inc := BitVec.ofBool s.tg.inc
  let Ng := s.Ig - 10
  if s.Jg then ⟨(3 : BitVec 5) ++ inc, s.tg.rest⟩
  else if s.Kg then ⟨(2 : BitVec 2) ++ (s.Ig.extractLsb' 0 3 - 2) ++ inc, s.tg.rest⟩
  else ⟨(1 : BitVec 2) ++ Ng.extractLsb' 6 3 ++ inc,
    Ng.extractLsb' 0 6 ++ s.tg.rest.extractLsb' 0 24⟩

def State.next (s : State) (i : Input) : State :=
  let ug := s.ug i.dg
  let restart := ug || !s.sg
  { sg := if i.Ce && !s.sg then true else s.sg && i.dg
    tg := if i.Ce && !s.sg then shortened i.ff else s.tg
    Pe := s.sg
    vg := if ug then if s.rg.isAddress then 0 else if s.rg.raw then s.vg + 1 else s.vg else s.vg
    wg := if ug && s.rg.isAddress then false else s.wg || s.vg == 1023
    Ie := Function.update s.Ie s.vg s.tg.value
    xg := if restart then false else if s.searches then s.yg else s.xg
    yg := s.Ag - s.vg == 1
    zg := if restart then s.vg - 1 else if s.searches then s.Ag else s.zg
    Ag := if restart then s.vg - 2 else if s.searches then s.Ag - 1 else s.Ag
    Cg := if restart then 0 else s.Cg.extractLsb' 0 1 ++ (1 : BitVec 1)
    Dg := s.Oe == s.tg.value
    Eg := (0 : BitVec 1) ++ s.Fg < BitVec.ofBool s.wg ++ s.vg && s.Fg != s.vg
    Oe := s.Ie s.zg
    Fg := s.zg
    Hg := s.vg - s.Fg
    Bg := if restart || !s.Pe then false else s.Bg || s.Eg && s.Dg && s.tg.raw && s.Cg == 3
    Ig := if s.Bg then s.Ig else s.Hg
    Jg := if s.Bg then s.Jg else s.Hg == 1
    Kg := if s.Bg then s.Kg else s.Hg < 10
    -- `10'd1313` is 289
    Lg := if s.Bg then s.Lg else s.Hg < 1313
    Pg := if !s.sg || !s.Pe || ug then s.tg else if s.Bg && s.Lg then s.tableCode else s.tg }

/-- The compressor, the reports it has taken and the codewords it has passed on. -/
structure Compressing where
  ff : State
  taken : List Report
  passed : List Codeword

/-- What is offered, with the bits that mean nothing, and whether the next stage is busy. -/
structure Offer where
  report : Option Report
  spare : BitVec 30
  dg : Bool

def Offer.input (o : Offer) : Input where
  Ce := o.report.isSome
  ff := match o.report with
    | some r => r.codeword o.spare
    | none => ⟨0, o.spare⟩
  dg := o.dg

def Compressing.next (t : Compressing) (o : Offer) : Compressing where
  ff := t.ff.next o.input
  taken := if t.ff.sg then t.taken else t.taken ++ o.report.toList
  passed := if t.ff.ug o.dg then t.passed ++ [t.ff.rg] else t.passed

def Report.isAddress : Report → Bool
  | .address _ => true
  | _ => false

def Report.isData : Report → Bool
  | .data .. => true
  | _ => false

/-- `vg` and `wg` have no initial values, but the FPGA starts them as zero. -/
def compressing : System Compressing Offer where
  init t := t.ff.sg = false ∧ t.ff.xg = false ∧ t.ff.zg = 0 ∧ t.ff.vg = 0 ∧ t.ff.wg = false ∧
    t.taken = [] ∧ t.passed = []
  allowed _ _ := True
  next := Compressing.next

def Status.ofCode (b : BitVec 6) : Option Status :=
  if b = 0 then some .idle
  else if b = 1 then some .busy
  else if b = 2 then some .ack
  else if b = 3 then some .reset
  else if b = 4 then some .interrupt
  else if b = 5 then some .error
  else none

/-- The words the listener has been sent in full; the next one goes to `wr`. -/
structure Listener where
  table : BitVec 10 → Word
  wr : BitVec 10

/-- How many words back a code looks. -/
def Codeword.back (w : Codeword) : BitVec 10 :=
  if w.first.extractLsb' 1 5 = 3 then 1
  else if w.first.extractLsb' 4 2 = 2 then (w.first.extractLsb' 1 3).setWidth 10 + 2
  else (w.first.extractLsb' 1 3 ++ w.rest.extractLsb' 24 6).setWidth 10 + 10

/-- The address in the characters after the first, of which there are one to four. -/
def Codeword.shortAddress (w : Codeword) : Word :=
  if w.first.extractLsb' 0 2 = 0 then (w.rest.extractLsb' 24 6).setWidth 32
  else if w.first.extractLsb' 0 2 = 1 then (w.rest.extractLsb' 18 12).setWidth 32
  else if w.first.extractLsb' 0 2 = 2 then (w.rest.extractLsb' 12 18).setWidth 32
  else (w.rest.extractLsb' 6 24).setWidth 32

def Listener.report (l : Listener) (w : Codeword) : Option Report :=
  if w.first < 6 then (Status.ofCode w.first).map .status
  else if w.first.extractLsb' 2 4 = 2 then some (.address w.address)
  else if w.first.extractLsb' 2 4 = 3 then some (.address w.shortAddress)
  else if w.first.extractLsb' 1 5 = 3 ∨ w.first.extractLsb' 4 2 = 1 ∨
      w.first.extractLsb' 4 2 = 2 then
    some (.data w.inc (l.table (l.wr - w.back)))
  else if w.raw then some (.data w.inc w.value)
  else none

def Listener.learn (l : Listener) (w : Codeword) : Listener :=
  if w.raw then ⟨Function.update l.table l.wr w.value, l.wr + 1⟩ else l

def Listener.after (l : Listener) (ws : List Codeword) : Listener := ws.foldl Listener.learn l

/-- What a listener makes of the codewords, one after the other. -/
def Listener.reports (l : Listener) : List Codeword → List (Option Report)
  | [] => []
  | w :: ws => l.report w :: (l.learn w).reports ws

variable {s : State} {i : Input} {l : Listener} {w : Codeword} {k : BitVec 10}

theorem join (v : Word) : v.extractLsb' 30 2 ++ v.extractLsb' 0 30 = v := by
  rw [BitVec.extractLsb'_append_extractLsb'_eq_extractLsb' (show 30 = 0 + 30 from rfl)]
  exact BitVec.extractLsb'_eq_self

theorem first_data : ∀ (x : BitVec 2) (inc : Bool),
    let b := (7 : BitVec 3) ++ x ++ BitVec.ofBool inc
    b.extractLsb' 1 2 = x ∧ b.getLsbD 0 = inc ∧ b.extractLsb' 3 3 = 7 ∧ ¬ b < 6 ∧
      b.extractLsb' 2 4 ≠ 2 ∧ b.extractLsb' 2 4 ≠ 3 ∧ b.extractLsb' 1 5 ≠ 3 ∧
      b.extractLsb' 4 2 = 3 := by
  decide

theorem first_address : ∀ x : BitVec 2,
    let b := (2 : BitVec 4) ++ x
    b.extractLsb' 0 2 = x ∧ b.extractLsb' 3 3 = 1 ∧ ¬ b < 6 ∧ b.extractLsb' 2 4 = 2 := by
  decide

theorem first_status (c : Status) : c.code < 6 ∧ c.code.extractLsb' 2 4 ≠ 2 ∧
    c.code.extractLsb' 3 3 = 0 ∧ Status.ofCode c.code = some c := by
  cases c <;> decide

/-- The low bits are all there is to a small number. -/
theorem setWidth_low {n m : ℕ} (a : Word) (h : a.extractLsb' n m = 0) (hn : n + m = 32) :
    (a.extractLsb' 0 n).setWidth 32 = a := by
  apply BitVec.eq_of_getLsbD_eq
  intro j hj
  rw [BitVec.getLsbD_setWidth, BitVec.getLsbD_extractLsb']
  have hhigh : n ≤ j → a.getLsbD j = false := by
    intro hnj
    have := congrArg (fun x : BitVec m => x.getLsbD (j - n)) h
    simpa [BitVec.getLsbD_extractLsb', show j - n < m by omega, Nat.add_sub_cancel' hnj] using this
  rcases Nat.lt_or_ge j n with hjn | hjn
  · simp [hj, hjn]
  · simp [hhigh hjn, Nat.not_lt.mpr hjn]

theorem Codeword.address_codeword (a : Word) (spare : BitVec 30) :
    ((Report.address a).codeword spare).address = a := by
  simp only [Report.codeword, Codeword.address, (first_address _).1, join]

theorem Codeword.value_codeword (inc : Bool) (v : Word) (spare : BitVec 30) :
    ((Report.data inc v).codeword spare).value = v := by
  simp only [Report.codeword, Codeword.value, (first_data _ _).1, join]

theorem shortened_of_not_address {r : Report} (h : r.isAddress = false) (spare : BitVec 30) :
    shortened (r.codeword spare) = r.codeword spare := by
  refine if_pos ?_
  cases r with
  | status c => exact (first_status c).2.1
  | address a => cases h
  | data inc v => exact (first_data _ _).2.2.2.2.1

/-- A short address has kept what its word has besides zeros. -/
theorem Listener.report_short (l : Listener) (w : Codeword) (a : Word) (n m : ℕ)
    (hw : w.first.extractLsb' 2 4 = 3) (h : a.extractLsb' n m = 0) (hn : n + m = 32)
    (hs : w.shortAddress = (a.extractLsb' 0 n).setWidth 32) : l.report w = some (.address a) := by
  have hsix : ¬ w.first < 6 := (by decide : ∀ b : BitVec 6, b.extractLsb' 2 4 = 3 → ¬ b < 6) _ hw
  have htwo : w.first.extractLsb' 2 4 ≠ 2 := by rw [hw]; decide
  rw [Listener.report, if_neg hsix, if_neg htwo, if_pos hw, hs, setWidth_low a h hn]

/-- A listener understands what was shortened. -/
theorem Listener.report_address (l : Listener) (a : Word) (spare : BitVec 30) :
    l.report (shortened ((Report.address a).codeword spare)) = some (.address a) := by
  have ha := Codeword.address_codeword a spare
  obtain ⟨-, -, hsix, htop⟩ := first_address (a.extractLsb' 30 2)
  unfold shortened
  simp only [ha]
  split_ifs with h2 h6 h12 h18 h24
  · exact absurd htop h2
  · refine l.report_short _ a 6 26 (show (12 : BitVec 6).extractLsb' 2 4 = 3 by decide) h6 rfl ?_
    refine (if_pos (show (12 : BitVec 6).extractLsb' 0 2 = 0 by decide)).trans ?_
    rw [BitVec.extractLsb'_append_eq_left]
  · refine l.report_short _ a 12 20 (show (13 : BitVec 6).extractLsb' 2 4 = 3 by decide) h12 rfl ?_
    refine (if_neg (show (13 : BitVec 6).extractLsb' 0 2 ≠ 0 by decide)).trans ?_
    refine (if_pos (show (13 : BitVec 6).extractLsb' 0 2 = 1 by decide)).trans ?_
    rw [BitVec.extractLsb'_append_eq_left]
  · refine l.report_short _ a 18 14 (show (14 : BitVec 6).extractLsb' 2 4 = 3 by decide) h18 rfl ?_
    refine (if_neg (show (14 : BitVec 6).extractLsb' 0 2 ≠ 0 by decide)).trans ?_
    refine (if_neg (show (14 : BitVec 6).extractLsb' 0 2 ≠ 1 by decide)).trans ?_
    refine (if_pos (show (14 : BitVec 6).extractLsb' 0 2 = 2 by decide)).trans ?_
    rw [BitVec.extractLsb'_append_eq_left]
  · refine l.report_short _ a 24 8 (show (15 : BitVec 6).extractLsb' 2 4 = 3 by decide) h24 rfl ?_
    refine (if_neg (show (15 : BitVec 6).extractLsb' 0 2 ≠ 0 by decide)).trans ?_
    refine (if_neg (show (15 : BitVec 6).extractLsb' 0 2 ≠ 1 by decide)).trans ?_
    refine (if_neg (show (15 : BitVec 6).extractLsb' 0 2 ≠ 2 by decide)).trans ?_
    rw [BitVec.extractLsb'_append_eq_left]
  · exact (if_neg hsix).trans ((if_pos htop).trans (by rw [ha]))

theorem Codeword.kind_status (w : Codeword) (h : w.first.extractLsb' 3 3 = 0) :
    w.raw = false ∧ w.isAddress = false := by
  rw [Codeword.raw, Codeword.isAddress, h]
  decide

theorem Codeword.kind_address (w : Codeword) (h : w.first.extractLsb' 3 3 = 1) :
    w.raw = false ∧ w.isAddress = true := by
  rw [Codeword.raw, Codeword.isAddress, h]
  decide

theorem Codeword.kind_data (w : Codeword) (h : w.first.extractLsb' 3 3 = 7) :
    w.raw = true ∧ w.isAddress = false := by
  rw [Codeword.raw, Codeword.isAddress, h]
  decide

theorem shortened_kind (r : Report) (spare : BitVec 30) :
    (shortened (r.codeword spare)).raw = r.isData ∧
      (shortened (r.codeword spare)).isAddress = r.isAddress := by
  cases r with
  | status c =>
    rw [shortened_of_not_address rfl]
    exact Codeword.kind_status _ (first_status c).2.2.1
  | address a =>
    have hone := (first_address (a.extractLsb' 30 2)).2.1
    apply Codeword.kind_address
    simp only [shortened]
    split_ifs
    · exact hone
    · exact (by decide : (12 : BitVec 6).extractLsb' 3 3 = 1)
    · exact (by decide : (13 : BitVec 6).extractLsb' 3 3 = 1)
    · exact (by decide : (14 : BitVec 6).extractLsb' 3 3 = 1)
    · exact (by decide : (15 : BitVec 6).extractLsb' 3 3 = 1)
    · exact hone
  | data inc v =>
    rw [shortened_of_not_address rfl]
    exact Codeword.kind_data _ (first_data (v.extractLsb' 30 2) inc).2.2.1

/-- In full, a listener understands every report. -/
theorem Listener.report_shortened (l : Listener) (r : Report) (spare : BitVec 30) :
    l.report (shortened (r.codeword spare)) = some r := by
  cases r with
  | status c =>
    obtain ⟨hsix, -, -, hc⟩ := first_status c
    rw [shortened_of_not_address rfl]
    exact (if_pos hsix).trans (congrArg (Option.map Report.status) hc)
  | address a => exact l.report_address a spare
  | data inc v =>
    obtain ⟨-, hinc, hseven, hsix, h2, h3, h5, h4⟩ := first_data (v.extractLsb' 30 2) inc
    have hv := Codeword.value_codeword inc v spare
    rw [shortened_of_not_address rfl]
    have hraw : ((Report.data inc v).codeword spare).raw :=
      (Codeword.kind_data _ hseven).1
    refine (if_neg hsix).trans ((if_neg h2).trans ((if_neg h3).trans ((if_neg ?_).trans
      ((if_pos hraw).trans ?_))))
    · rintro (h | h | h)
      · exact h5 h
      · exact absurd (h4.symm.trans h) (by decide)
      · exact absurd (h4.symm.trans h) (by decide)
    · rw [hv]
      exact congrArg (fun b => some (Report.data b v)) hinc

/-- The codeword stands for the word `k` entries back. -/
structure Codeword.Refers (w : Codeword) (k : BitVec 10) : Prop where
  kind : w.first.extractLsb' 1 5 = 3 ∨ w.first.extractLsb' 4 2 = 1 ∨ w.first.extractLsb' 4 2 = 2
  back : w.back = k

theorem Codeword.Refers.first (h : w.Refers k) :
    ¬ w.first < 6 ∧ w.first.extractLsb' 2 4 ≠ 2 ∧ w.first.extractLsb' 2 4 ≠ 3 ∧
      w.first.extractLsb' 3 3 ≠ 7 ∧ w.first.extractLsb' 3 3 ≠ 1 :=
  (by decide : ∀ b : BitVec 6,
    (b.extractLsb' 1 5 = 3 ∨ b.extractLsb' 4 2 = 1 ∨ b.extractLsb' 4 2 = 2) →
      ¬ b < 6 ∧ b.extractLsb' 2 4 ≠ 2 ∧ b.extractLsb' 2 4 ≠ 3 ∧ b.extractLsb' 3 3 ≠ 7 ∧
        b.extractLsb' 3 3 ≠ 1) _ h.kind

theorem Codeword.Refers.not_raw (h : w.Refers k) : w.raw = false :=
  beq_false_of_ne h.first.2.2.2.1

theorem Codeword.Refers.not_address (h : w.Refers k) : w.isAddress = false :=
  beq_false_of_ne h.first.2.2.2.2

theorem Codeword.Refers.report (h : w.Refers k) (l : Listener) :
    l.report w = some (.data w.inc (l.table (l.wr - k))) := by
  obtain ⟨hsix, h2, h3, -, -⟩ := h.first
  rw [Listener.report, if_neg hsix, if_neg h2, if_neg h3, if_pos h.kind, h.back]

theorem first_last : ∀ inc : Bool,
    let b := (3 : BitVec 5) ++ BitVec.ofBool inc
    b.extractLsb' 1 5 = 3 ∧ b.getLsbD 0 = inc := by
  decide

theorem first_short : ∀ (x : BitVec 3) (inc : Bool),
    let b := (2 : BitVec 2) ++ x ++ BitVec.ofBool inc
    b.extractLsb' 1 3 = x ∧ b.getLsbD 0 = inc ∧ b.extractLsb' 4 2 = 2 ∧
      b.extractLsb' 1 5 ≠ 3 := by
  decide

theorem first_long : ∀ (x : BitVec 3) (inc : Bool),
    let b := (1 : BitVec 2) ++ x ++ BitVec.ofBool inc
    b.extractLsb' 1 3 = x ∧ b.getLsbD 0 = inc ∧ b.extractLsb' 4 2 = 1 ∧
      b.extractLsb' 1 5 ≠ 3 := by
  decide

theorem short_back (h : 2 ≤ k.toNat) (h' : k.toNat < 10) :
    (k.extractLsb' 0 3 - 2).setWidth 10 + 2 = k := by
  have hall : ∀ n : Fin 8, let x := BitVec.ofNat 10 (n.val + 2)
      (x.extractLsb' 0 3 - 2).setWidth 10 + 2 = x := by decide
  have hk : BitVec.ofNat 10 (k.toNat - 2 + 2) = k := by
    rw [Nat.sub_add_cancel h, BitVec.ofNat_toNat, BitVec.setWidth_eq]
  exact hk ▸ hall ⟨k.toNat - 2, by omega⟩

theorem long_back (h : 10 ≤ k.toNat) (h' : k.toNat < 289) :
    ((k - 10).extractLsb' 6 3 ++ (k - 10).extractLsb' 0 6).setWidth 10 + 10 = k := by
  have hsplit : (k - 10).extractLsb' 6 3 ++ (k - 10).extractLsb' 0 6 = (k - 10).extractLsb' 0 9 :=
    BitVec.extractLsb'_append_extractLsb'_eq_extractLsb' rfl
  rw [hsplit]
  apply BitVec.eq_of_toNat_eq
  simp only [BitVec.toNat_add, BitVec.toNat_setWidth, BitVec.extractLsb'_toNat, BitVec.toNat_sub,
    BitVec.ofNat_eq_ofNat, BitVec.toNat_ofNat, Nat.shiftRight_zero]
  omega

/-- What the search has found is sent as how far back it is. -/
theorem State.tableCode_refers (hj : s.Jg = (s.Ig == 1)) (hk : s.Kg = decide (s.Ig < 10))
    (hpos : 0 < s.Ig.toNat) (hlt : s.Ig.toNat < 289) :
    s.tableCode.Refers s.Ig ∧ s.tableCode.inc = s.tg.inc := by
  unfold State.tableCode
  by_cases h1 : s.Ig = 1
  · obtain ⟨hkind, hinc⟩ := first_last s.tg.inc
    rw [if_pos (by rw [hj]; exact beq_iff_eq.mpr h1)]
    refine ⟨⟨Or.inl hkind, ?_⟩, hinc⟩
    rw [Codeword.back, if_pos hkind, h1]
  · have hne : s.Ig.toNat ≠ 1 := fun h => h1 (BitVec.eq_of_toNat_eq h)
    rw [if_neg (by rw [hj]; exact fun h => h1 (beq_iff_eq.mp h))]
    by_cases h10 : s.Ig < 10
    · obtain ⟨hx, hinc, hkind, hlast⟩ := first_short (s.Ig.extractLsb' 0 3 - 2) s.tg.inc
      rw [if_pos (by rw [hk]; exact decide_eq_true h10)]
      refine ⟨⟨Or.inr (Or.inr hkind), ?_⟩, hinc⟩
      rw [Codeword.back, if_neg hlast, if_pos hkind, hx]
      exact short_back (by omega) h10
    · obtain ⟨hx, hinc, hkind, hlast⟩ := first_long ((s.Ig - 10).extractLsb' 6 3) s.tg.inc
      rw [if_neg (by rw [hk]; exact fun h => h10 (of_decide_eq_true h))]
      refine ⟨⟨Or.inr (Or.inl hkind), ?_⟩, hinc⟩
      rw [Codeword.back, if_neg hlast, if_neg (by rw [hkind]; decide), hx]
      have hrest : ((s.Ig - 10).extractLsb' 0 6 ++ s.tg.rest.extractLsb' 0 24).extractLsb' 24 6 =
          (s.Ig - 10).extractLsb' 0 6 := BitVec.extractLsb'_append_eq_left
      rw [show ((_ : BitVec (6 + 24)).extractLsb' 24 6) = _ from hrest]
      exact long_back (Nat.le_of_not_lt h10) hlt

/-- How many words of the table are the last ones sent. -/
def State.filled (s : State) : ℕ := if s.wg then 1023 else s.vg.toNat

/-- The word of `tg` lies `k` entries back in the table. -/
structure State.At (s : State) (k : BitVec 10) : Prop where
  pos : 0 < k.toNat
  le : k.toNat ≤ s.filled
  word : s.Ie (s.vg - k) = s.tg.value

/-- What the search knows, in the order in which it gets to know it. -/
structure State.Sound (s : State) : Prop where
  looked : s.sg → s.Cg.getLsbD 0 → s.Fg ≠ s.vg → s.Oe = s.Ie s.Fg
  compared : s.sg → s.Cg = 3 → s.Eg → s.Dg → s.At s.Hg
  found : s.sg → s.Bg → s.tg.raw ∧ s.At s.Ig ∧ s.Jg = (s.Ig == 1) ∧
    s.Kg = decide (s.Ig < 10) ∧ s.Lg = decide (s.Ig < 1313)
  coded : s.sg → s.Pe → s.Pg = s.tg ∨
    s.tg.raw ∧ ∃ k, s.At k ∧ s.Pg.Refers k ∧ s.Pg.inc = s.tg.inc

theorem sub_ne_self {x k : BitVec 10} (hk : 0 < k.toNat) : x - k ≠ x := by
  intro h
  have hz : k = 0 := by
    have := congrArg (x - ·) h
    simpa using this
  rw [hz] at hk
  exact absurd hk (by decide)

theorem State.filled_le (s : State) : s.filled ≤ 1023 := by
  unfold State.filled
  split
  · exact Nat.le_refl _
  · omega

/-- The table stays, but for the entry that has yet to be sent. -/
theorem State.filled_next (h : s.ug i.dg = false ∨ s.rg.isAddress = false ∧ s.rg.raw = false) :
    (s.next i).vg = s.vg ∧ (s.next i).filled = s.filled := by
  have hvg : (s.next i).vg = s.vg := by
    rcases h with h | ⟨h, h'⟩
    · simp [State.next, h]
    · simp [State.next, h, h']
  have hwg : (s.next i).wg = (s.wg || s.vg == 1023) := by
    rcases h with h | ⟨h, -⟩ <;> simp [State.next, h]
  refine ⟨hvg, ?_⟩
  unfold State.filled
  rw [hvg, hwg]
  by_cases hw : s.wg
  · simp [hw]
  · by_cases hv : s.vg = 1023
    · simp [hw, hv]
    · simp only [hw, beq_false_of_ne hv]
      rfl

theorem State.Ie_next (s : State) (i : Input) {x : BitVec 10} (hx : x ≠ s.vg) :
    (s.next i).Ie x = s.Ie x := Function.update_of_ne hx _ _

theorem State.At.next (h : s.At k) (hug : s.ug i.dg = false) (hsg : s.sg) :
    (s.next i).At k := by
  obtain ⟨hvg, hfilled⟩ := State.filled_next (Or.inl hug)
  refine ⟨h.pos, hfilled ▸ h.le, ?_⟩
  have htg : (s.next i).tg = s.tg := by simp [State.next, hsg]
  rw [hvg, htg, s.Ie_next i (sub_ne_self h.pos), h.word]

/-- An entry is looked at only if a word has been sent from there. -/
theorem State.compares (hE : (s.next i).Eg) : s.Fg ≠ s.vg ∧ 0 < (s.vg - s.Fg).toNat ∧
    (s.vg - s.Fg).toNat ≤ s.filled := by
  have hE' : ((0 : BitVec 1) ++ s.Fg < BitVec.ofBool s.wg ++ s.vg) ∧ s.Fg ≠ s.vg := by
    simpa [State.next] using hE
  obtain ⟨hlt, hne⟩ := hE'
  have hn : s.Fg.toNat ≠ s.vg.toNat := fun h => hne (BitVec.eq_of_toNat_eq h)
  rw [BitVec.lt_def, BitVec.toNat_append, BitVec.toNat_append] at hlt
  refine ⟨hne, ?_⟩
  unfold State.filled
  rw [BitVec.toNat_sub]
  cases hw : s.wg
  · simp [hw] at hlt ⊢
    omega
  · simp
    omega

theorem State.Sound.next (h : s.Sound) (i : Input) : (s.next i).Sound := by
  rcases Bool.eq_false_or_eq_true (s.sg && i.dg) with hw | hw
  · obtain ⟨hsg, hdg⟩ : s.sg = true ∧ i.dg = true := by simpa using hw
    have hug : s.ug i.dg = false := by simp [State.ug, hdg]
    have hvg := (State.filled_next (i := i) (Or.inl hug)).1
    have hfill := (State.filled_next (i := i) (Or.inl hug)).2
    have htg : (s.next i).tg = s.tg := by simp [State.next, hsg]
    have hcg : (s.next i).Cg = s.Cg.extractLsb' 0 1 ++ (1 : BitVec 1) := by
      simp [State.next, hug, hsg]
    refine ⟨fun _ _ hne => ?_, fun _ hc hE hD => ?_, fun _ hB => ?_, fun _ hP => ?_⟩
    · exact (s.Ie_next i (hvg ▸ hne)).symm
    · obtain ⟨hne, hpos, hle⟩ := State.compares hE
      have hbit : s.Cg.getLsbD 0 := by
        rw [hcg] at hc
        revert hc
        generalize s.Cg = c
        revert c
        decide
      have hD' : s.Oe = s.tg.value := by simpa [State.next] using hD
      have hback : s.vg - (s.vg - s.Fg) = s.Fg := sub_sub_cancel _ _
      refine ⟨hpos, hfill ▸ hle, ?_⟩
      rw [hvg, htg]
      change (s.next i).Ie (s.vg - (s.vg - s.Fg)) = _
      rw [hback, s.Ie_next i hne, ← h.looked hsg hbit hne, hD']
    · have hB' : s.Bg = true ∨ s.Eg ∧ s.Dg ∧ s.tg.raw ∧ s.Cg = 3 := by
        have hb : (s.next i).Bg =
            if !s.Pe then false else s.Bg || s.Eg && s.Dg && s.tg.raw && s.Cg == 3 := by
          simp [State.next, hug, hsg]
        rw [hb] at hB
        split_ifs at hB
        simpa only [Bool.or_eq_true, Bool.and_eq_true, beq_iff_eq, and_assoc] using hB
      rcases Bool.eq_false_or_eq_true s.Bg with hb | hb
      · obtain ⟨hraw, hat, hJ, hK, hL⟩ := h.found hsg hb
        have hI : (s.next i).Ig = s.Ig := if_pos hb
        rw [htg, hI]
        exact ⟨hraw, hat.next hug hsg, (if_pos hb).trans hJ, (if_pos hb).trans hK,
          (if_pos hb).trans hL⟩
      · rcases hB' with hB' | ⟨hE, hD, hraw, hc⟩
        · exact absurd (hB'.symm.trans hb) (by decide)
        · have hn : ¬ s.Bg = true := by rw [hb]; decide
          have hI : (s.next i).Ig = s.Hg := if_neg hn
          rw [htg, hI]
          exact ⟨hraw, (h.compared hsg hc hE hD).next hug hsg, if_neg hn, if_neg hn, if_neg hn⟩
    · have hPg : (s.next i).Pg =
          if !s.Pe then s.tg else if s.Bg && s.Lg then s.tableCode else s.tg := by
        simp [State.next, hug, hsg]
      rw [hPg, htg]
      split_ifs with hPe hB
      · exact Or.inl rfl
      · obtain ⟨hb, hl⟩ : s.Bg = true ∧ s.Lg = true := by simpa using hB
        obtain ⟨hraw, hat, hJ, hK, hL⟩ := h.found hsg hb
        obtain ⟨hr, hinc⟩ := State.tableCode_refers hJ hK hat.pos
          (of_decide_eq_true (hL.symm.trans hl))
        exact Or.inr ⟨hraw, s.Ig, hat.next hug hsg, hr, hinc⟩
      · exact Or.inl rfl
  · have hrestart : s.ug i.dg = true ∨ s.sg = false := by
      rcases Bool.eq_false_or_eq_true s.sg with hsg | hsg
      · exact Or.inl (by simpa [State.ug, hsg] using hw)
      · exact Or.inr hsg
    refine ⟨fun _ hc => ?_, fun _ hc => ?_, fun _ hB => ?_, fun hs hP => ?_⟩
    · rcases hrestart with hr | hr <;> simp [State.next, hr] at hc
    · rcases hrestart with hr | hr <;> simp [State.next, hr] at hc
    · rcases hrestart with hr | hr <;> simp [State.next, hr] at hB
    · -- passed on, or nothing waited in the clock before
      rcases hrestart with hr | hr
      · simp_all [State.next, State.ug]
      · exact absurd (hr.symm.trans hP) (by decide)

variable {t : Compressing} {o : Offer} {rs : List Report} {r : Report} {spare : BitVec 30}

/-- The listener has in its table what the compressor has in its own. -/
def Agree (s : State) (l : Listener) : Prop :=
  ∀ k : BitVec 10, 0 < k.toNat → k.toNat ≤ s.filled → s.Ie (s.vg - k) = l.table (l.wr - k)

theorem Agree.next (h : Agree s l)
    (hq : s.ug i.dg = false ∨ s.rg.isAddress = false ∧ s.rg.raw = false) :
    Agree (s.next i) l := by
  obtain ⟨hvg, hfilled⟩ := State.filled_next hq
  intro k hpos hle
  rw [hvg, s.Ie_next i (sub_ne_self hpos)]
  exact h k hpos (hfilled ▸ hle)

/-- A word sent in full is the last one of both tables. -/
theorem Agree.push (h : Agree s l) (hug : s.ug i.dg) (hrg : s.rg = s.tg) (hraw : s.tg.raw)
    (hadd : s.tg.isAddress = false) : Agree (s.next i) (l.learn s.rg) := by
  have hvg : (s.next i).vg = s.vg + 1 := by simp [State.next, hug, hrg, hraw, hadd]
  have hwg : (s.next i).wg = (s.wg || s.vg == 1023) := by simp [State.next, hrg, hadd]
  have hlearn : l.learn s.rg = ⟨Function.update l.table l.wr s.tg.value, l.wr + 1⟩ := by
    rw [hrg]
    exact if_pos hraw
  have hfilled : (s.next i).filled ≤ s.filled + 1 := by
    unfold State.filled
    rw [hvg, hwg]
    by_cases hw : s.wg
    · simp [hw]
    · by_cases hv : s.vg = 1023
      · simp [hw, hv]
      · simp only [hw, beq_false_of_ne hv, BitVec.toNat_add]
        exact Nat.mod_le _ _
  have hmax := (s.next i).filled_le
  intro k hpos hle
  have hk : k = 1 + (k - 1) := (add_sub_cancel 1 k).symm
  rw [hlearn, hvg]
  dsimp only
  rw [show s.vg + 1 - k = s.vg - (k - 1) by ring, show l.wr + 1 - k = l.wr - (k - 1) by ring]
  change Function.update s.Ie s.vg s.tg.value (s.vg - (k - 1)) = _
  by_cases h1 : k = 1
  · rw [h1, sub_self, sub_zero, sub_zero, Function.update_self, Function.update_self]
  · have hsub : (k - 1).toNat = k.toNat - 1 := by
      rw [BitVec.toNat_sub_of_le (by rw [BitVec.le_def]; exact hpos)]
      rfl
    have hne : k.toNat ≠ 1 := fun h => h1 (BitVec.eq_of_toNat_eq h)
    have hpos' : 0 < (k - 1).toNat := by omega
    rw [Function.update_of_ne (sub_ne_self hpos'), Function.update_of_ne (sub_ne_self hpos')]
    exact h (k - 1) hpos' (by omega)

theorem Listener.reports_append (l : Listener) (ws vs : List Codeword) :
    l.reports (ws ++ vs) = l.reports ws ++ (l.after ws).reports vs := by
  induction ws generalizing l with
  | nil => rfl
  | cons w ws ih => exact congrArg (l.report w :: ·) (ih (l.learn w))

theorem Listener.length_reports (l : Listener) (ws : List Codeword) :
    (l.reports ws).length = ws.length := by
  induction ws generalizing l with
  | nil => rfl
  | cons w ws ih => exact congrArg (· + 1) (ih (l.learn w))

theorem Listener.after_snoc (l : Listener) (ws : List Codeword) (w : Codeword) :
    l.after (ws ++ [w]) = (l.after ws).learn w := by
  rw [Listener.after, List.foldl_append]
  rfl

theorem State.Sound.rg (h : s.Sound) (hsg : s.sg) : s.rg = s.tg ∨
    s.tg.raw ∧ ∃ k, s.At k ∧ s.rg.Refers k ∧ s.rg.inc = s.tg.inc := by
  unfold State.rg
  by_cases hP : s.Pe
  · rw [if_pos hP]
    exact h.coded hsg hP
  · exact Or.inl (if_neg hP)

/-- The reports `rs` have been passed on, in whatever form. -/
structure Compressing.Kept (l : Listener) (t : Compressing) (rs : List Report) : Prop where
  sound : t.ff.Sound
  heard : l.reports t.passed = rs.map some
  idle : t.ff.sg = false → t.taken = rs
  held : t.ff.sg → ∃ r spare, t.taken = rs ++ [r] ∧ t.ff.tg = shortened (r.codeword spare)
  agree : Agree t.ff (l.after t.passed)

/-- Whatever the form, the listener understands it. -/
theorem Agree.report (h : Agree s l) (hs : s.Sound) (hsg : s.sg)
    (htg : s.tg = shortened (r.codeword spare)) : l.report s.rg = some r := by
  rcases hs.rg hsg with hrg | ⟨hraw, k, hat, href, hinc⟩
  · rw [hrg, htg]
    exact l.report_shortened r spare
  · rw [htg, (shortened_kind r spare).1] at hraw
    rw [href.report, ← h k hat.pos hat.le, hat.word, hinc, htg]
    cases r with
    | status c => cases hraw
    | address a => cases hraw
    | data inc v =>
      rw [shortened_of_not_address rfl, Codeword.value_codeword]
      exact congrArg (fun b => some (Report.data b v)) (first_data _ inc).2.1

/-- And its table follows. -/
theorem Agree.learn (h : Agree s l) (hs : s.Sound) (hsg : s.sg)
    (hug : s.ug i.dg) (htg : s.tg = shortened (r.codeword spare)) :
    Agree (s.next i) (l.learn s.rg) := by
  obtain ⟨hraw, hadd⟩ := shortened_kind r spare
  rw [← htg] at hraw hadd
  rcases hs.rg hsg with hrg | ⟨htraw, k, -, href, -⟩
  · cases r with
    | address a =>
      -- the table is emptied
      intro k hpos hle
      have hzero : (s.next i).filled = 0 := by
        unfold State.filled
        simp [State.next, hug, hrg, hadd, Report.isAddress]
      omega
    | data inc v => exact h.push hug hrg hraw hadd
    | status c =>
      have hlearn : l.learn s.rg = l := by
        rw [hrg]
        exact if_neg (hraw ▸ Bool.false_ne_true)
      rw [hlearn]
      exact h.next (Or.inr ⟨hrg ▸ hadd, hrg ▸ hraw⟩)
  · have hlearn : l.learn s.rg = l := if_neg (href.not_raw ▸ Bool.false_ne_true)
    rw [hlearn]
    exact h.next (Or.inr ⟨href.not_address, href.not_raw⟩)

theorem Compressing.Kept.next (h : t.Kept l rs) : ∃ rs', (t.next o).Kept l rs' := by
  have hsound := h.sound.next o.input
  by_cases hsg : t.ff.sg
  · obtain ⟨r, spare, htaken, htg⟩ := h.held hsg
    have htaken' : (t.next o).taken = rs ++ [r] := (if_pos hsg).trans htaken
    by_cases hdg : o.dg
    · have hug : t.ff.ug o.dg = false := by simp [State.ug, hdg]
      have hpassed : (t.next o).passed = t.passed := by simp [Compressing.next, hug]
      have hsg' : (t.next o).ff.sg = true := by
        simp [Compressing.next, State.next, hsg, Offer.input, hdg]
      refine ⟨rs, hsound, hpassed ▸ h.heard, fun hs => ?_, fun _ => ?_, ?_⟩
      · exact absurd (hs.symm.trans hsg') (by decide)
      · refine ⟨r, spare, htaken', ?_⟩
        simpa [Compressing.next, State.next, hsg] using htg
      · rw [hpassed]
        exact h.agree.next (Or.inl hug)
    · have hug : t.ff.ug o.dg = true := by simp [State.ug, hsg, hdg]
      have hpassed : (t.next o).passed = t.passed ++ [t.ff.rg] := if_pos hug
      have hsg' : (t.next o).ff.sg = false := by
        simp [Compressing.next, State.next, hsg, Offer.input, hdg]
      refine ⟨rs ++ [r], hsound, ?_, fun _ => htaken', fun hs => ?_, ?_⟩
      · have hr := h.agree.report h.sound hsg htg
        rw [hpassed, Listener.reports_append, h.heard, List.map_append]
        exact congrArg (rs.map some ++ [·]) hr
      · exact absurd (hs.symm.trans hsg') (by decide)
      · rw [hpassed, Listener.after_snoc]
        exact h.agree.learn h.sound hsg hug htg
  · have hsg : t.ff.sg = false := Bool.eq_false_iff.mpr hsg
    have hug : t.ff.ug o.dg = false := by simp [State.ug, hsg]
    have hpassed : (t.next o).passed = t.passed := by simp [Compressing.next, hug]
    have htaken : (t.next o).taken = rs ++ o.report.toList := by
      simp [Compressing.next, hsg, h.idle hsg]
    refine ⟨rs, hsound, hpassed ▸ h.heard, fun hs => ?_, fun hs => ?_, ?_⟩
    · cases ho : o.report with
      | none => simpa [ho] using htaken
      | some r => simp [Compressing.next, State.next, Offer.input, hsg, ho] at hs
    · cases ho : o.report with
      | none => simp [Compressing.next, State.next, Offer.input, hsg, ho] at hs
      | some r =>
        refine ⟨r, o.spare, by rw [htaken, ho]; rfl, ?_⟩
        simp [Compressing.next, State.next, Offer.input, hsg, ho]
    · rw [hpassed]
      exact h.agree.next (Or.inl hug)

theorem Compressing.kept_init (h : compressing.init t) (l : Listener) : t.Kept l [] := by
  obtain ⟨hsg, -, -, hvg, hwg, htaken, hpassed⟩ := h
  have hn : ¬ t.ff.sg = true := by rw [hsg]; decide
  refine ⟨⟨fun h => absurd h hn, fun h => absurd h hn, fun h => absurd h hn,
    fun h => absurd h hn⟩, ?_, fun _ => htaken, fun h => absurd h hn, ?_⟩
  · rw [hpassed]
    rfl
  · -- no word has been sent yet
    intro k hpos hle
    have hzero : t.ff.filled = 0 := by
      rw [State.filled, hwg, hvg]
      rfl
    omega

theorem Compressing.kept_of_reachable (h : compressing.Reachable t) (l : Listener) :
    ∃ rs, t.Kept l rs := by
  refine h.invariant (P := fun u => ∃ rs, u.Kept l rs) (fun s hs => ⟨[], kept_init hs l⟩) ?_
  rintro u o ⟨rs, hu⟩ -
  exact hu.next

/-- Whatever is compressed, and however long the next stage makes the search last: a listener
who starts with any table makes of it what was reported, all but what is still held. -/
theorem reports_heard (h : compressing.Reachable t) (l : Listener) :
    t.passed.length + t.ff.sg.toNat = t.taken.length ∧
      l.reports t.passed = (t.taken.take t.passed.length).map some := by
  obtain ⟨rs, hk⟩ := Compressing.kept_of_reachable h l
  have hlen : t.passed.length = rs.length := by
    rw [← l.length_reports, hk.heard, List.length_map]
  rcases Bool.eq_false_or_eq_true t.ff.sg with hsg | hsg
  · obtain ⟨r, -, htaken, -⟩ := hk.held hsg
    rw [hlen, htaken, List.take_left, hsg, List.length_append]
    exact ⟨rfl, hk.heard⟩
  · rw [hk.idle hsg, hlen, List.take_length, hsg]
    exact ⟨rfl, hk.heard⟩

def powerUp : Compressing where
  ff := ⟨false, ⟨0, 0⟩, false, 0, false, fun _ => 0, false, false, 0, 0, 0, false, false, 0, 0, 0,
    false, 0, false, false, false, ⟨0, 0⟩⟩
  taken := []
  passed := []

/-- An address, and the same word twice; the second time the next stage is busy for a while. -/
def sentTwice : List Offer :=
  [⟨some (.address 0x100), 0, false⟩, ⟨none, 0, false⟩, ⟨some (.data true 5), 0, false⟩,
    ⟨none, 0, false⟩, ⟨some (.data true 5), 0, false⟩] ++
    List.replicate 6 ⟨none, 0, true⟩ ++ [⟨none, 0, false⟩]

theorem reports_heard_twice :
    (sentTwice.foldl compressing.next powerUp).passed.getLast? = some ⟨7, 5⟩ ∧
      (⟨fun _ => 0, 0⟩ : Listener).reports (sentTwice.foldl compressing.next powerUp).passed =
        [some (.address 0x100), some (.data true 5), some (.data true 5)] := by
  have hr : compressing.Reachable powerUp :=
    System.reachable_init ⟨rfl, rfl, rfl, rfl, rfl, rfl, rfl⟩
  have ha : compressing.Admits powerUp sentTwice := System.admits_of_free (fun _ _ => trivial) _
  have h := reports_heard (hr.foldl ha) ⟨fun _ => 0, 0⟩
  exact ⟨by decide +kernel, h.2.trans (by decide +kernel)⟩

end S6Soc.WbUbus
