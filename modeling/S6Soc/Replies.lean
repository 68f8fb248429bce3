import Mathlib
import S6Soc.ReadWord
import S6Soc.WbuFifo

/-! All that `wbubus` does with its reports: they wait in the queue, `DfVMD2` puts what it has
to say itself between them, and what comes of it goes the way of `ReplyLine`. -/
namespace S6Soc.WbUbus
open Clocked TtyBus

/-- The registers of `DfVMD2`: `eg` is offered while `Ee`, `fg` is an interrupt that has not been
reported and `gg` one that has; `jg` counts the clocks without a report, and `ig` says that the
host has been told that there is none. -/
structure Inserter where
  Ee : Bool
  eg : Coded
  Tf : Bool
  fg : Bool
  gg : Bool
  ig : Bool
  jg : BitVec 36

def Inserter.hg (s : Inserter) : Bool := !s.ig && s.jg.getLsbD 35

/-- `Ce` offers `ff`, `cg` says that the bus is in use, `hf` that there is an interrupt, and
`busy` is the next stage. -/
def Inserter.next (s : Inserter) (Ce : Bool) (ff : Coded) (cg hf busy : Bool) : Inserter where
  fg := if s.Ee && !busy && s.eg.codeword.first == 4 then hf else s.fg || hf
  jg := if Ce || s.Ee then 0 else if !s.jg.getLsbD 35 then s.jg + 43 else s.jg
  ig :=
    if s.Ee && !busy && s.eg.codeword.first.extractLsb' 1 5 == 0 then true
    else if !s.jg.getLsbD 35 then false
    else s.ig
  Ee := if s.Ee then busy else !s.Tf && (Ce || s.fg && !s.gg || s.hg)
  Tf := if s.Ee then true else !s.Tf && (Ce || s.fg && !s.gg || s.hg)
  eg :=
    if s.Ee || s.Tf then s.eg
    else if Ce then ff
    else if s.fg && !s.gg then ⟨.status .interrupt, 0⟩
    else if s.hg then if cg then ⟨.status .busy, 0⟩ else ⟨.status .idle, 0⟩
    else s.eg
  gg := if s.fg && !s.Ee && !s.Tf && !Ce then true else if !hf then false else s.gg

/-- The way of a report, what has been reported, and how many of these have left the queue. What
a reset finds in the queue is forgotten. -/
structure Reporting where
  queue : WbuFifo.State 10 Coded
  df : Inserter
  line : Replying
  said : List Report
  read : ℕ

/-- A reset, a report `ff` while `Ce`, whether the bus is in use, the interrupt, and the serial
port. -/
structure Occasion where
  Qe : Bool
  Ce : Bool
  ff : Coded
  gf : Bool
  hf : Bool
  busy : Bool

def Reporting.lf (t : Reporting) : Bool := t.queue.Ve && !t.df.Tf

def Reporting.input (t : Reporting) (o : Occasion) : WbuFifo.Input Coded :=
  ⟨o.Qe, o.Ce, o.ff, t.lf⟩

def Reporting.beat (t : Reporting) (o : Occasion) : Beat where
  report := if t.df.Ee then some t.df.eg.report else none
  spare := t.df.eg.spare
  more := o.gf || o.Ce || t.queue.Ve || t.df.Tf
  busy := o.busy

def Reporting.next (t : Reporting) (o : Occasion) : Reporting :=
  let read := t.read + t.lf.toNat
  { queue := t.queue.next (t.input o)
    df := t.df.next t.lf t.queue.Ue o.gf o.hf t.line.front.ff.sg
    line := t.line.next (t.beat o)
    said := if o.Qe then t.said.take read else if o.Ce then t.said ++ [o.ff.report] else t.said
    read := read }

/-- Nothing is reported while the queue is full. -/
def reporting : System Reporting Occasion where
  init t := t.queue.Ze = 0 ∧ t.queue.af = 0 ∧ t.queue.bf = false ∧ t.queue.cf = false ∧
    t.queue.Ve = false ∧ t.df.Ee = false ∧ t.df.Tf = false ∧ t.df.fg = false ∧
    t.df.gg = false ∧ t.df.ig = false ∧ t.df.jg = 0 ∧ replying.init t.line ∧
    t.said = [] ∧ t.read = 0
  allowed t o := o.Ce → t.lf ∨ t.queue.count + 1 < 2 ^ 10
  next := Reporting.next

instance Reporting.decidableAllowed (t : Reporting) (o : Occasion) :
    Decidable (reporting.allowed t o) :=
  inferInstanceAs (Decidable (o.Ce → t.lf ∨ t.queue.count + 1 < 2 ^ 10))

/-- What `DfVMD2` may put in: it tells a host that calls `readword` nothing. -/
def Report.filler : Report → Bool
  | .status .idle | .status .busy | .status .interrupt => true
  | _ => false

/-- The reports that are more than that. -/
def telling (rs : List Report) : List Report := rs.filter fun r => !r.filler

variable {t : Reporting} {o : Occasion} {rs vs : List Report} {r : Report}

theorem telling_append (rs vs : List Report) : telling (rs ++ vs) = telling rs ++ telling vs :=
  List.filter_append ..

theorem filler_silent (h : r.filler) (a : Word) :
    r.word a = [] ∧ r.fails = false ∧ r.after a = a := by
  cases r with
  | status c => cases c <;> first | exact ⟨rfl, rfl, rfl⟩ | cases h
  | address b => cases h
  | data inc v => cases h

theorem words_telling (rs : List Report) (a : Word) : words a (telling rs) = words a rs := by
  induction rs generalizing a with
  | nil => rfl
  | cons r rs ih =>
    by_cases hr : r.filler
    · obtain ⟨hword, hfails, hafter⟩ := filler_silent hr a
      have hcons : telling (r :: rs) = telling rs := List.filter_cons_of_neg (by simp [hr])
      rw [hcons, ih, words, hword, hfails, hafter]
      rfl
    · have hcons : telling (r :: rs) = r :: telling rs := List.filter_cons_of_pos (by simp [hr])
      rw [hcons, words, words, ih]

/-- What the inserter offers. -/
def Inserter.offered (s : Inserter) : List Report := if s.Ee then [s.eg.report] else []

/-- What it offers next is what it has been given, or says nothing. -/
theorem Inserter.offered_next (s : Inserter) (Ce : Bool) (ff : Coded) (cg hf busy : Bool)
    (hC : Ce → s.Tf = false) (hE : s.Ee → s.Tf) :
    telling ((if s.Ee && !busy then [s.eg.report] else []) ++
        (s.next Ce ff cg hf busy).offered) =
      telling (s.offered ++ if Ce then [ff.report] else []) := by
  rcases Bool.eq_false_or_eq_true s.Tf with hT | hT
  · have hCe : Ce = false := by
      cases Ce with
      | false => rfl
      | true => exact absurd (hT.symm.trans (hC rfl)) (by decide)
    have heg : (s.next Ce ff cg hf busy).eg = s.eg := by simp [Inserter.next, hT]
    rcases Bool.eq_false_or_eq_true s.Ee with hEe | hEe
    · have hEe' : (s.next Ce ff cg hf busy).Ee = busy := by simp [Inserter.next, hEe]
      rw [Inserter.offered, Inserter.offered, heg, hEe', hEe, hCe]
      cases busy <;> rfl
    · have hEe' : (s.next Ce ff cg hf busy).Ee = false := by simp [Inserter.next, hEe, hT]
      rw [Inserter.offered, Inserter.offered, hEe', hEe, hCe]
      rfl
  · have hEe : s.Ee = false := by
      by_contra h
      exact absurd (hT.symm.trans (hE (by simpa using h))) (by decide)
    rw [Inserter.offered, Inserter.offered, hEe]
    cases hCe : Ce with
    | true =>
      have hEe' : (s.next true ff cg hf busy).Ee = true := by simp [Inserter.next, hEe, hT]
      have heg : (s.next true ff cg hf busy).eg = ff := by simp [Inserter.next, hEe, hT]
      rw [hEe', heg]
      rfl
    | false =>
      -- an interrupt, an idle bus, or nothing
      have hEe' : (s.next false ff cg hf busy).Ee = (s.fg && !s.gg || s.hg) := by
        simp [Inserter.next, hEe, hT]
      have heg : (s.next false ff cg hf busy).eg =
          if s.fg && !s.gg then ⟨.status .interrupt, 0⟩
          else if s.hg then if cg then ⟨.status .busy, 0⟩ else ⟨.status .idle, 0⟩ else s.eg := by
        simp [Inserter.next, hEe, hT]
      rw [hEe', heg]
      by_cases hf : (s.fg && !s.gg) = true
      · rw [hf]
        rfl
      · by_cases hg : s.hg = true
        · simp only [hf, hg]
          cases cg <;> rfl
        · simp only [hf, hg]
          rfl

/-- What has left the queue has been taken by the compressor, or is offered to it. -/
structure Reporting.Kept (t : Reporting) : Prop where
  sound : t.queue.Sound
  busy : t.df.Ee → t.df.Tf
  line : replying.Reachable t.line
  read_le : t.read ≤ t.said.length
  queued : t.queue.held.map Coded.report = t.said.drop t.read
  told : telling (t.line.front.taken ++ t.df.offered) = telling (t.said.take t.read)

theorem Reporting.kept_init (h : reporting.init t) : t.Kept := by
  obtain ⟨hZ, ha, hb, hc, hv, hE, hT, -, -, -, -, hline, hsaid, hread⟩ := h
  have hcount : t.queue.count = 0 := WbuFifo.State.count_eq_zero.mpr (hZ.trans ha.symm)
  have hheld : t.queue.held = [] :=
    List.eq_nil_of_length_eq_zero (by rw [WbuFifo.State.length_held, hcount])
  have htaken : t.line.front.taken = [] := hline.1.2.2.2.2.2.1
  refine ⟨⟨fun h => ?_, fun _ => hcount, fun h => ?_⟩, fun h => ?_, System.reachable_init hline,
    ?_, ?_, ?_⟩
  · exact absurd (h.symm.trans hb) (by decide)
  · exact absurd (h.symm.trans hv) (by decide)
  · exact absurd (h.symm.trans hE) (by decide)
  · rw [hread]
    exact Nat.zero_le _
  · rw [hheld, hsaid, List.drop_nil]
    rfl
  · rw [htaken, hsaid, Inserter.offered, hE, List.take_nil]
    rfl

theorem Reporting.taken_next (t : Reporting) (o : Occasion) : (t.next o).line.front.taken =
    t.line.front.taken ++ if t.df.Ee && !t.line.front.ff.sg then [t.df.eg.report] else [] := by
  change (if t.line.front.ff.sg then t.line.front.taken
    else t.line.front.taken ++ (if t.df.Ee then some t.df.eg.report else none).toList) = _
  cases t.line.front.ff.sg <;> cases t.df.Ee <;> simp

/-- The word that leaves the queue is the first of those that are in it. -/
theorem Reporting.Kept.first (h : t.Kept) (hlf : t.lf) :
    t.said.take (t.read + 1) = t.said.take t.read ++ [t.queue.Ue.report] ∧
      t.read + 1 ≤ t.said.length := by
  have hv : t.queue.Ve := by
    have h : t.queue.Ve = true ∧ t.df.Tf = false := by simpa [Reporting.lf] using hlf
    exact h.1
  obtain ⟨hpos, hU⟩ := h.sound.offered hv
  have hheld := WbuFifo.State.held_pop hpos
  have hdrop := h.queued
  rw [hheld, List.map_cons, ← hU] at hdrop
  have hget : t.said[t.read]? = some t.queue.Ue.report := by
    rw [← List.head?_drop, ← hdrop]
    rfl
  obtain ⟨hlt, -⟩ := List.getElem?_eq_some_iff.mp hget
  refine ⟨?_, hlt⟩
  rw [List.take_add_one, hget]
  rfl

theorem Reporting.Kept.next (h : t.Kept) (ha : reporting.allowed t o) : (t.next o).Kept := by
  have hlf : t.lf → t.queue.Ve ∧ t.df.Tf = false := fun hl => by simpa [Reporting.lf] using hl
  have hread : (t.next o).read ≤ t.said.length ∧
      t.said.take (t.next o).read = t.said.take t.read ++
        if t.lf then [t.queue.Ue.report] else [] := by
    change t.read + t.lf.toNat ≤ _ ∧ t.said.take (t.read + t.lf.toNat) = _
    by_cases hl : t.lf
    · obtain ⟨htake, hle⟩ := h.first hl
      rw [hl]
      exact ⟨hle, htake⟩
    · rw [Bool.eq_false_iff.mpr hl]
      exact ⟨h.read_le, (List.append_nil _).symm⟩
  obtain ⟨hle, htake⟩ := hread
  have hdrop : t.said.drop t.read =
      (if t.lf then [t.queue.Ue.report] else []) ++ t.said.drop (t.next o).read := by
    have hsplit := (List.take_append_drop t.read t.said).trans
      (List.take_append_drop (t.next o).read t.said).symm
    rw [htake, List.append_assoc] at hsplit
    exact List.append_cancel_left hsplit
  have htold : telling ((t.next o).line.front.taken ++ (t.next o).df.offered) =
      telling (t.said.take (t.next o).read) := by
    have hoffered := t.df.offered_next t.lf t.queue.Ue o.gf o.hf t.line.front.ff.sg
      (fun hl => (hlf hl).2) h.busy
    rw [t.taken_next o, List.append_assoc, telling_append]
    refine (congrArg (telling t.line.front.taken ++ ·) hoffered).trans ?_
    rw [← telling_append, ← List.append_assoc, telling_append, h.told, ← telling_append, htake]
  have hbusy : (t.next o).df.Ee → (t.next o).df.Tf := by
    intro hE
    change (if t.df.Ee then true else !t.df.Tf && (t.lf || t.df.fg && !t.df.gg || t.df.hg)) = true
    by_cases hEe : t.df.Ee
    · exact if_pos hEe
    · rw [if_neg hEe]
      exact (if_neg hEe).symm.trans hE
  have hline : replying.Reachable (t.next o).line := h.line.step trivial
  by_cases hQ : o.Qe
  · obtain ⟨hsound, hheld⟩ := WbuFifo.State.Sound.reset (s := t.queue) (i := t.input o) hQ
    have hsaid : (t.next o).said = t.said.take (t.next o).read := if_pos hQ
    have hlen : (t.next o).said.length = (t.next o).read := by
      rw [hsaid, List.length_take]
      omega
    refine ⟨hsound, hbusy, hline, hlen.ge, ?_, ?_⟩
    · rw [← hlen, List.drop_length]
      exact congrArg (List.map Coded.report) hheld
    · rw [htold, hsaid, List.take_take, Nat.min_self]
  · obtain ⟨hsound, hheld⟩ := h.sound.clock (i := t.input o) (Bool.eq_false_iff.mpr hQ)
      (fun hl => (hlf hl).1) ha
    have hsaid : (t.next o).said = t.said ++ if o.Ce then [o.ff.report] else [] := by
      refine (if_neg hQ).trans ?_
      split_ifs
      · rfl
      · exact (List.append_nil _).symm
    have hmap := congrArg (List.map Coded.report) hheld
    refine ⟨hsound, hbusy, hline, ?_, ?_, ?_⟩
    · rw [hsaid, List.length_append]
      omega
    · rw [hsaid, List.drop_append_of_le_length hle]
      rw [List.map_append, List.map_append, h.queued, hdrop] at hmap
      have hleft : (if (t.input o).Te then [t.queue.Ue] else []).map Coded.report =
          if t.lf then [t.queue.Ue.report] else [] := by
        change (if t.lf then [t.queue.Ue] else []).map Coded.report = _
        split_ifs <;> rfl
      have hright : (if (t.input o).Re then [(t.input o).Se] else []).map Coded.report =
          if o.Ce then [o.ff.report] else [] := by
        change (if o.Ce then [o.ff] else []).map Coded.report = _
        split_ifs <;> rfl
      rw [hleft, hright, List.append_assoc] at hmap
      exact List.append_cancel_left hmap
    · rw [htold, hsaid, List.take_append_of_le_length hle]

/-- Nothing is on its way any more. -/
structure Reporting.Quiet (t : Reporting) : Prop where
  queue : t.queue.count = 0
  df : t.df.Ee = false
  ff : t.line.front.ff.sg = false
  line : t.line.Quiet

theorem Reporting.readwords_kept (h : reporting.Reachable t) (s : Reader)
    (hline : s.line = t.line.sent.map hostChar) :
    s.readwords <+: words s.lastaddr t.said ∧
      (t.Quiet → s.readwords = words s.lastaddr t.said) := by
  have hk : t.Kept := h.invariant (fun _ => Reporting.kept_init) fun _ _ hu => hu.next
  obtain ⟨hsome, hall⟩ := readwords_reports hk.line s hline
  have htold : words s.lastaddr (t.line.front.taken ++ t.df.offered) =
      words s.lastaddr (t.said.take t.read) := by
    rw [← words_telling, hk.told, words_telling]
  refine ⟨?_, fun hq => ?_⟩
  · have hoffered := words_append s.lastaddr t.line.front.taken t.df.offered
    have hrest := words_append s.lastaddr (t.said.take t.read) (t.said.drop t.read)
    rw [List.take_append_drop] at hrest
    exact hsome.trans (hoffered.trans (htold ▸ hrest))
  · have hnone : t.df.offered = [] := by
      rw [Inserter.offered, hq.df]
      rfl
    have hheld : t.queue.held = [] :=
      List.eq_nil_of_length_eq_zero (by rw [WbuFifo.State.length_held, hq.queue])
    have hread : t.said.take t.read = t.said := by
      have hdrop := hk.queued
      rw [hheld] at hdrop
      have hsplit := List.take_append_drop t.read t.said
      rwa [← hdrop, List.map_nil, List.append_nil] at hsplit
    rw [hall hq.line hq.ff]
    rw [hnone, List.append_nil, hread] at htold
    exact htold

/-- Whatever is reported, whenever the bus is idle or interrupted, and however much the host has
been sent, its calls of `readword` return the words of what has been reported, in order and with
their addresses; and all of them when nothing is on its way. -/
theorem readwords_said (h : reporting.Reachable t) (s : Reader)
    (hline : s.line = t.line.sent.map hostChar) :
    s.readwords <+: words s.lastaddr t.said ∧
      (t.Quiet → s.readwords = words s.lastaddr t.said) :=
  Reporting.readwords_kept h s hline

/-- From power up, with everything zero. -/
def newReplying : Replying where
  front := powerUp
  hf := ⟨false, 0, false, false, 0, 0⟩
  jf := ⟨false, 0, true, true, 0, false, false⟩
  lf := ⟨false, 0⟩
  sent := []

def newReporting : Reporting where
  queue := ⟨fun _ => ⟨.status .idle, 0⟩, 0, 0, false, false, ⟨.status .idle, 0⟩, false⟩
  df := ⟨false, ⟨.status .idle, 0⟩, false, false, false, false, 0⟩
  line := newReplying
  said := []
  read := 0

theorem init_newReporting : reporting.init newReporting :=
  ⟨rfl, rfl, rfl, rfl, rfl, rfl, rfl, rfl, rfl, rfl, rfl,
    ⟨⟨rfl, rfl, rfl, rfl, rfl, rfl, rfl⟩, rfl, rfl, rfl, rfl, rfl, rfl, rfl, rfl, rfl, rfl, rfl,
      rfl⟩, rfl, rfl⟩

/-- An address and a word twice, one clock after the other, and then an interrupt. -/
def reportedTwice : List Occasion :=
  let none : Coded := ⟨.status .idle, 0⟩
  [⟨false, true, ⟨.address 0x100, 0⟩, true, false, false⟩,
    ⟨false, true, ⟨.data true 5, 0⟩, true, false, false⟩,
    ⟨false, true, ⟨.data true 5, 0⟩, true, false, false⟩,
    ⟨false, false, none, true, true, false⟩] ++
    List.replicate 80 ⟨false, false, none, true, false, false⟩

def reported : Reporting := reportedTwice.foldl reporting.next newReporting

theorem readwords_said_twice :
    reported.line.sent.map hostChar = ['D', '4', '0', 'v', '0', '0', '0', '0', '5', '7', '4'] ∧
      (Reader.initial (reported.line.sent.map hostChar)).readwords = [(5, 0x404), (5, 0x408)] := by
  have hr : reporting.Reachable newReporting := System.reachable_init init_newReporting
  have ha : reporting.Admits newReporting reportedTwice := by decide +kernel
  have hq : reported.Quiet :=
    ⟨by decide +kernel, by decide +kernel, by decide +kernel,
      ⟨by decide +kernel, by decide +kernel, by decide +kernel⟩⟩
  have hreach : reporting.Reachable reported := by
    unfold reported
    exact hr.foldl ha
  have hline : (Reader.initial (reported.line.sent.map hostChar)).line =
      reported.line.sent.map hostChar := by
    simp only [Reader.initial]
  have h := (readwords_said hreach _ hline).2 hq
  exact ⟨by decide +kernel, h.trans (by decide +kernel)⟩

end S6Soc.WbUbus
