import S6Soc.BusMaster

/-! Every answer on the bus reaches the request it answers. -/
namespace S6Soc.BusMaster
open Clocked FlashXpress

variable {mem : BitVec 24 → BitVec 8} {s : Soc} {i : Input} {e : Entry} {m : Master}

theorem sel_cases (a : BitVec 23) :
    flashSel a = true ∨ memSel a = true ∨ scopSel a = true ∨ ioSel a = true ∨
      unmapped a = true := by
  simp only [flashSel, memSel, scopSel, ioSel, unmapped, skipaddr]
  cases a.getLsbD 22 <;> cases a.getLsbD 12 <;> cases a.getLsbD 9 <;> cases a.getLsbD 8 <;> simp

/-- A one-clock slave is selected. -/
def oneSel (a : BitVec 23) : Bool := ioSel a || scopSel a || memSel a

theorem oneSel_flashSel (a : BitVec 23) (h : flashSel a = true) : oneSel a = false := by
  simp only [flashSel, memSel, scopSel, ioSel, oneSel, skipaddr] at *
  simp [h]

theorem unmapped_flashSel {a : BitVec 23} (h : unmapped a = true) : flashSel a = false := by
  simp only [flashSel, unmapped, skipaddr] at *
  grind

theorem unmapped_oneSel {a : BitVec 23} (h : unmapped a = true) : oneSel a = false := by
  simp only [memSel, scopSel, ioSel, oneSel, unmapped, skipaddr] at *
  grind

theorem flashSel_iff (a : BitVec 23) : flashSel a = true ↔ 2 ^ 22 ≤ a.toNat := by
  have h : flashSel a = a.msb := (BitVec.msb_eq_getLsbD_last a).symm
  rw [h, BitVec.msb_eq_decide, decide_eq_true_iff]

/-- The word after a flash word is in the flash, or is word 0, where nothing is. -/
theorem flashSel_succ {a : BitVec 23} (h : flashSel a = true) :
    flashSel (a + 1) = true ∨ unmapped (a + 1) = true := by
  rw [flashSel_iff] at h
  by_cases ha : a.toNat + 1 < 2 ^ 23
  · left
    rw [flashSel_iff, BitVec.toNat_add, Nat.mod_eq_of_lt (by simpa using ha)]
    omega
  · right
    have h0 : a + 1 = 0 := by
      apply BitVec.eq_of_toNat_eq
      have := a.isLt
      simp
      omega
    rw [h0]
    decide

def Soc.oneAck (s : Soc) : Bool := s.ioAck || s.scopAck || s.memAck

/-- What the flash owes the bus. -/
def Soc.flashLine (s : Soc) : List Entry := s.flash.line s.read s.reading

structure Slaves (mem : BitVec 24 → BitVec 8) (s : Soc) : Prop where
  flash : FlashXpress.Invariant mem s.flash
  io : s.ioAck = true → ioSel s.last.addr = true ∧ s.ioData = s.last.word
  scop : s.scopAck = true → scopSel s.last.addr = true ∧ s.scopData = s.last.word
  ram : s.memAck = true → memSel s.last.addr = true ∧ s.memData = s.last.word
  held : s.oneAck = true → s.flash.held = true
  alone : s.oneAck = true → s.flashLine = []
  pending : s.flash.pending = s.flashLine.map fun e => e.addr.setWidth 22
  entries : ∀ e ∈ s.flashLine, flashSel e.addr = true ∧
    e.word = QspiFlash.word mem (e.addr.setWidth 22)

structure Masters (s : Soc) : Prop where
  domemLock : s.domem.lockGbl = false
  domemStb : s.domem.oWbStbGbl = true → s.domem.rWbCycGbl = true ∧ s.owedMem = []
  pfStb : s.pf.oWbStb = true → s.pf.oWbCyc = true
  pfFirst : s.pf.oWbStb = true → s.pf.lastStb = false → s.owedPf = []
  pfSecond : s.pf.oWbStb = true → ∀ e ∈ s.owedPf,
    s.pf.oWbAddr = e.addr ∨ s.pf.oWbAddr = e.addr + 1
  other : ∀ m, m ≠ s.owner → s.owed m = []
  queue : s.owed s.owner = (if s.oneAck then [s.last] else []) ++ s.flashLine
  own : ∀ m, ∀ e ∈ s.owed m, e.master = m

structure Inv (mem : BitVec 24 → BitVec 8) (s : Soc) : Prop extends Slaves mem s, Masters s

theorem stb_cyc (h : Inv mem s) (hs : s.wbStb = true) : s.wbCyc = true := by
  unfold Soc.wbStb at hs
  unfold Soc.wbCyc
  cases ho : s.owner <;> rw [ho] at hs
  · simp [Soc.cycOf, MemOps.State.oWbCycGbl, (h.domemStb hs).1]
  · exact h.pfStb hs

theorem flashRequest_allowed (h : Inv mem s) :
    s.flashRequest.stb = true → s.flashRequest.cyc = true := by
  intro hs
  simp only [Soc.flashRequest, Bool.and_eq_true] at hs
  exact stb_cyc h hs.1

/-- A flash acknowledgement in a bus cycle is owed to the read it acknowledges. -/
theorem flashLine_of_ack (ha : s.flash.core.oWbAck = true) (hh : s.flash.held = true) :
    s.flashLine = s.read :: s.flashLine.tail := by
  simp [Soc.flashLine, Board.line, ha, hh]

theorem flash_ack_held (hw : Orderly s) (hc : s.wbCyc = true) (ha : s.flash.core.oWbAck = true) :
    s.flash.held = true := hw.timely.cycle ha hc

theorem no_flash_ack (hw : Orderly s) (hc : s.wbCyc = true) (hl : s.flashLine = []) :
    s.flash.core.oWbAck = false := by
  by_contra hb
  have ha : s.flash.core.oWbAck = true := by simpa using hb
  rw [flashLine_of_ack ha (flash_ack_held hw hc ha)] at hl
  cases hl

theorem owed_flashLine (h : Inv mem s) (he : e ∈ s.flashLine) : e ∈ s.owed s.owner := by
  rw [h.queue]
  exact List.mem_append_right _ he

theorem oneSel_mapped {a : BitVec 23} (h : oneSel a = true) :
    flashSel a = false ∧ unmapped a = false := by
  constructor
  · cases hf : flashSel a
    · rfl
    · simp [oneSel_flashSel _ hf] at h
  · cases hu : unmapped a
    · rfl
    · simp [unmapped_oneSel hu] at h

/-- No one-clock slave is asked for while the flash owes an answer: a cycle asks for one
word, or for a word and itself or the next. -/
theorem flashLine_nil (h : Inv mem s) (hs : s.wbStb = true) (ho : oneSel s.wbAddr = true) :
    s.flashLine = [] := by
  rw [List.eq_nil_iff_forall_not_mem]
  intro e he
  have hf := (h.entries e he).1
  have hm := owed_flashLine h he
  obtain ⟨hn, hu⟩ := oneSel_mapped ho
  unfold Soc.wbStb at hs
  unfold Soc.wbAddr at hn hu
  cases hown : s.owner <;> rw [hown] at hs hn hu hm
  · simp [Soc.owed, (h.domemStb hs).2] at hm
  · obtain ha | ha := h.pfSecond hs e hm
    · rw [show s.addrOf .pf = e.addr from ha, hf] at hn
      cases hn
    · rw [show s.addrOf .pf = e.addr + 1 from ha] at hn hu
      obtain hf' | hu' := flashSel_succ hf
      · rw [hf'] at hn
        cases hn
      · rw [hu'] at hu
        cases hu

theorem told_owner (ht : s.ackTo m = true ∨ s.errTo m = true) : m = s.owner := by
  by_contra hn
  simp [Soc.ackTo, Soc.errTo, hn] at ht

theorem one_source (h : Inv mem s) (ha : s.oneAck = true) :
    (if s.ioAck then [s.last] else []) ++ (if s.scopAck then [s.last] else []) ++
        (if s.memAck then [s.last] else []) = [s.last] ∧
      unmapped s.last.addr = false ∧ s.wbIdata = s.last.word := by
  have hi := h.io
  have hs := h.scop
  have hm := h.ram
  simp only [Soc.oneAck, Bool.or_eq_true] at ha
  simp only [memSel, scopSel, ioSel, unmapped, skipaddr, Soc.wbIdata] at *
  cases h1 : s.ioAck <;> cases h2 : s.scopAck <;> cases h3 : s.memAck <;>
    simp [h1, h2, h3] at * <;> grind

theorem flash_source (h : Inv mem s) (ha : s.flash.core.oWbAck = true)
    (hh : s.flash.held = true) (ho : s.oneAck = false) :
    unmapped s.read.addr = false ∧ s.wbIdata = s.read.word := by
  obtain ⟨a, -, hs⟩ := h.flash
  have hl := flashLine_of_ack ha hh
  have he := h.entries s.read (by rw [hl]; exact List.mem_cons_self)
  have hp := h.pending
  rw [hl, hs.queue] at hp
  have hr : answered a s.flash.left = s.read.addr.setWidth 22 := by
    simp [Board.line, ha, hh] at hp
    exact hp.1
  refine ⟨?_, ?_⟩
  · cases hu : unmapped s.read.addr
    · rfl
    · have := unmapped_flashSel hu
      simp [he.1] at this
  · simp only [Soc.oneAck, Bool.or_eq_false_iff] at ho
    simp [Soc.wbIdata, ho, hs.ackData ha, hr, he.2]

theorem owed_nil (h : Inv mem s) (ho : s.owed s.owner = []) :
    s.oneAck = false ∧ s.flashLine = [] := by
  rw [h.queue, List.append_eq_nil_iff] at ho
  refine ⟨?_, ho.2⟩
  cases ha : s.oneAck
  · rfl
  · simp [ha] at ho

theorem queue_owner (s : Soc) (i : Input) : s.queue mem i s.owner =
    s.owed s.owner ++ if s.wbStb && !s.wbStall then [s.shown mem i] else [] := by
  simp [Soc.queue, Soc.stallTo, Soc.wbStb]

theorem answered_of_inv (h : Inv mem s) (hw : Orderly s) : Answered mem s i := by
  refine ⟨fun m ht => ?_, fun hc => ?_⟩
  · obtain rfl := told_owner ht
    rw [queue_owner]
    simp only [Soc.ackTo, Soc.errTo, if_true, Soc.wbErr] at ht ⊢
    have hc : s.wbCyc = true := by
      obtain ht | ht := ht
      · simp [Soc.wbAck] at ht
        exact ht.1
      · simp [Soc.noneSel] at ht
        exact stb_cyc h ht.1
    cases hn : s.noneSel
    · simp [hn, Soc.wbAck] at ht
      cases ho : s.oneAck
      · have ha : s.flash.core.oWbAck = true := by
          simp only [Soc.oneAck, Bool.or_eq_false_iff] at ho
          simp [ho] at ht
          exact ht.2
        have hh := flash_ack_held hw hc ha
        obtain ⟨hu, hd⟩ := flash_source h ha hh ho
        have hq : s.owed s.owner = s.read :: s.flashLine.tail := by
          rw [h.queue, ho, ← flashLine_of_ack ha hh]
          rfl
        refine ⟨s.read, _, by rw [hq]; rfl, h.own _ _ (by rw [hq]; exact List.mem_cons_self), ?_,
          ?_, hu.symm, fun _ => hd⟩
        · simp only [Soc.oneAck, Bool.or_eq_false_iff] at ho
          simp [Soc.sources, ho, ha, hn]
        · simp [Soc.wbAck, hc, ha]
      · have ha := no_flash_ack hw hc (h.alone ho)
        obtain ⟨hs, hu, hd⟩ := one_source h ho
        have hq : s.owed s.owner = [s.last] := by simp [h.queue, ho, h.alone ho]
        refine ⟨s.last, _, by rw [hq]; rfl, h.own _ _ (by rw [hq]; exact List.mem_cons_self), ?_,
          ?_, hu.symm, fun _ => hd⟩
        · simp [Soc.sources, hs, ha, hn]
        · simp only [Soc.wbAck, hc, ha, hn]
          simpa [Soc.oneAck] using ho
    · obtain ⟨ho, hl⟩ := owed_nil h (hw.mapped hn)
      have ha := no_flash_ack hw hc hl
      have hn' := hn
      simp only [Soc.noneSel, Bool.and_eq_true] at hn'
      refine ⟨s.shown mem i, [], ?_, rfl, ?_, by simp [Soc.wbAck, hc, hn], hn'.2.symm, ?_⟩
      · simp [hw.mapped hn, hn'.1, Soc.wbStall, unmapped_flashSel hn'.2]
      · simp only [Soc.oneAck, Bool.or_eq_false_iff] at ho
        simp [Soc.sources, ho, ha, hn]
      · intro hu
        rw [show (s.shown mem i).addr = s.wbAddr from rfl, hn'.2] at hu
        cases hu
  · simp [Soc.owner, Soc.next, Soc.nextOwner, hc]

theorem next_oneAck : (s.next mem i).oneAck = (s.wbStb && oneSel s.wbAddr) := by
  simp only [Soc.oneAck, Soc.next, oneSel, Bool.and_or_distrib_left]

theorem flash_taken : s.flash.taken s.flashRequest =
    (s.wbStb && flashSel s.wbAddr && !s.flash.core.oWbStall) := rfl

theorem next_flashLine (h : Inv mem s) (hw : Orderly s) : (s.next mem i).flashLine =
    if s.wbCyc then
      (if s.flash.core.oWbAck then s.flashLine.tail else s.flashLine) ++
        if s.flash.taken s.flashRequest then [s.shown mem i] else []
    else [] := by
  obtain ⟨a, ht, hs⟩ := h.flash
  exact line_next ht hs hw.timely s.read s.reading (s.shown mem i)

/-- What is taken goes to a one-clock slave or to the flash. -/
theorem taken_split (hn : s.noneSel = false) (e : Entry) :
    (if s.wbStb && !s.wbStall then [e] else []) =
      (if s.wbStb && oneSel s.wbAddr then [e] else []) ++
        if s.flash.taken s.flashRequest then [e] else [] := by
  rw [flash_taken, Soc.wbStall]
  cases hs : s.wbStb
  · simp
  have hu : unmapped s.wbAddr = false := by simpa [Soc.noneSel, hs] using hn
  cases hf : flashSel s.wbAddr
  · have ho : oneSel s.wbAddr = true := by
      have := sel_cases s.wbAddr
      simp [hf, hu] at this
      simp [oneSel]
      tauto
    simp [ho]
  · simp [oneSel_flashSel _ hf]

/-- The owner's queue moves on as its slaves do. -/
theorem next_queue (h : Inv mem s) (hw : Orderly s) : s.nextOwed mem i s.owner =
    (if (s.next mem i).oneAck then [s.shown mem i] else []) ++ (s.next mem i).flashLine := by
  rw [next_oneAck, next_flashLine h hw, Soc.nextOwed, show s.cycOf s.owner = s.wbCyc from rfl]
  cases hc : s.wbCyc
  · have hs : s.wbStb = false := by
      by_contra hb
      have := stb_cyc h (by simpa using hb)
      simp [hc] at this
    simp [hs]
  rw [queue_owner]
  have hack : s.ackTo s.owner = s.wbAck := if_pos rfl
  have herr : s.errTo s.owner = s.noneSel := if_pos rfl
  rw [hack, herr, flash_taken]
  cases hn : s.noneSel
  · have hw' : s.wbAck = (s.oneAck || s.flash.core.oWbAck) := by
      simp [Soc.wbAck, hc, hn, Soc.oneAck]
    rw [taken_split hn, flash_taken, hw', h.queue]
    cases ho : s.oneAck
    · cases ha : s.flash.core.oWbAck
      · cases h1 : s.wbStb && oneSel s.wbAddr
        · simp
        · simp only [Bool.and_eq_true] at h1
          simp [flashLine_nil h h1.1 h1.2]
      · have hl := flashLine_of_ack ha (flash_ack_held hw hc ha)
        have h1 : (s.wbStb && oneSel s.wbAddr) = false := by
          by_contra hb
          simp at hb
          rw [flashLine_nil h hb.1 hb.2] at hl
          cases hl
        rw [hl, h1]
        simp
    · have ha := no_flash_ack hw hc (h.alone ho)
      simp [ha, h.alone ho]
  · obtain ⟨ho, hl⟩ := owed_nil h (hw.mapped hn)
    have ha := no_flash_ack hw hc hl
    simp only [Soc.noneSel, Bool.and_eq_true] at hn
    simp [hw.mapped (by simp [Soc.noneSel, hn]), hn, Soc.wbStall, unmapped_flashSel hn.2,
      unmapped_oneSel hn.2, hl]

theorem next_owed (m : Master) : (s.next mem i).owed m = s.nextOwed mem i m := by
  cases m <;> rfl

theorem slaves_next (h : Inv mem s) (hw : Orderly s) : Slaves mem (s.next mem i) := by
  have hone : (s.next mem i).oneAck = true → s.wbStb = true ∧ oneSel s.wbAddr = true := by
    rw [next_oneAck, Bool.and_eq_true]
    exact id
  have hmem : ∀ e ∈ (s.next mem i).flashLine,
      e ∈ s.flashLine ∨ e = s.shown mem i ∧ s.flash.taken s.flashRequest = true := by
    intro e he
    rw [next_flashLine h hw] at he
    have := @List.mem_of_mem_tail _ e s.flashLine
    grind
  refine ⟨invariant_next h.flash (flashRequest_allowed h) hw.timely, ?_, ?_, ?_, ?_, ?_, ?_, ?_⟩
  · intro ha
    obtain ⟨-, ha⟩ : s.wbStb = true ∧ ioSel s.wbAddr = true := by simpa [Soc.next] using ha
    refine ⟨ha, ?_⟩
    simp [ioSel, skipaddr] at ha
    simp [Soc.next, Soc.shown, answer, flashSel, memSel, scopSel, skipaddr, ha]
  · intro ha
    obtain ⟨-, ha⟩ : s.wbStb = true ∧ scopSel s.wbAddr = true := by simpa [Soc.next] using ha
    refine ⟨ha, ?_⟩
    simp [scopSel, skipaddr] at ha
    simp [Soc.next, Soc.shown, answer, flashSel, memSel, scopSel, skipaddr]
    grind
  · intro ha
    obtain ⟨-, ha⟩ : s.wbStb = true ∧ memSel s.wbAddr = true := by simpa [Soc.next] using ha
    refine ⟨ha, ?_⟩
    simp [memSel, skipaddr] at ha
    simp [Soc.next, Soc.shown, answer, flashSel, memSel, skipaddr, ha]
  · intro ha
    exact stb_cyc h (hone ha).1
  · intro ha
    obtain ⟨hs, ho⟩ := hone ha
    rw [next_flashLine h hw, flashLine_nil h hs ho, flash_taken, (oneSel_mapped ho).1]
    simp
  · rw [next_flashLine h hw, show (s.next mem i).flash = s.flash.next mem s.flashRequest from rfl,
      next_pending, h.pending]
    have hr : s.flashRequest.cyc = s.wbCyc := rfl
    rw [hr]
    cases s.wbCyc
    · rfl
    · cases s.flash.core.oWbAck <;> cases s.flash.taken s.flashRequest <;>
        simp [List.map_tail, Soc.flashRequest, Soc.shown]
  · intro e he
    obtain he | ⟨rfl, ht⟩ := hmem e he
    · exact h.entries e he
    · rw [flash_taken] at ht
      simp only [Bool.and_eq_true] at ht
      exact ⟨ht.1.2, by simp [Soc.shown, answer, ht.1.2]⟩

theorem nextOwed_other (h : Inv mem s) (hm : m ≠ s.owner) : s.nextOwed mem i m = [] := by
  simp [Soc.nextOwed, Soc.queue, h.other m hm, Soc.stallTo, hm]

theorem nextOwed_idle (hc : s.cycOf m = false) : s.nextOwed mem i m = [] := by
  simp [Soc.nextOwed, hc]

theorem nextOwed_mem (he : e ∈ s.nextOwed mem i m) : e ∈ s.queue mem i m := by
  have := @List.mem_of_mem_tail _ e (s.queue mem i m)
  simp only [Soc.nextOwed] at he
  grind

theorem stalled_domem (h : Inv mem s) (hw : Orderly s) (hs : s.domem.oWbStbGbl = true)
    (ht : s.stallTo .domem = true) :
    s.ackTo .domem = false ∧ s.errTo .domem = false ∧ s.nextOwed mem i .domem = [] := by
  by_cases ho : Master.domem = s.owner
  · have hc : s.wbCyc = true := by
      rw [Soc.wbCyc, ← ho]
      simp [Soc.cycOf, MemOps.State.oWbCycGbl, (h.domemStb hs).1]
    have hq : s.owed s.owner = [] := by
      rw [← ho]
      exact (h.domemStb hs).2
    obtain ⟨hone, hl⟩ := owed_nil h hq
    have ha := no_flash_ack hw hc hl
    have hst : s.wbStall = true := by simpa [Soc.stallTo, ho] using ht
    have hn : s.noneSel = false := by
      simp only [Soc.wbStall, Bool.and_eq_true] at hst
      cases hu : unmapped s.wbAddr
      · simp [Soc.noneSel, hu]
      · simp [unmapped_flashSel hu] at hst
    have hack : s.wbAck = false := by
      simp only [Soc.oneAck, Bool.or_eq_false_iff] at hone
      simp [Soc.wbAck, hone, ha, hn]
    refine ⟨by simp [Soc.ackTo, hack], by simp [Soc.errTo, Soc.wbErr, hn], ?_⟩
    rw [ho, Soc.nextOwed, queue_owner, hq, hst]
    simp
  · exact ⟨by simp [Soc.ackTo, ho], by simp [Soc.errTo, ho], nextOwed_other h ho⟩

theorem domem_next (h : Inv mem s) (hw : Orderly s)
    (hs : (s.next mem i).domem.oWbStbGbl = true) :
    (s.next mem i).domem.rWbCycGbl = true ∧ (s.next mem i).owedMem = [] := by
  have hc : s.cycOf .domem = s.domem.rWbCycGbl := by
    simp [Soc.cycOf, MemOps.State.oWbCycGbl, h.domemLock]
  simp only [Soc.next, MemOps.step, Soc.memInput, MemOps.State.oWbCycGbl, h.domemLock] at hs ⊢
  cases hcyc : s.domem.rWbCycGbl
  · rw [hcyc] at hc
    simp [hcyc] at hs
    simp [hs, nextOwed_idle hc]
  · simp [hcyc] at hs
    obtain ⟨ha, he, ho⟩ := stalled_domem (i := i) h hw hs.2.1 hs.2.2
    simp [ha, he, ho]

/-- What holds the prefetch's strobe up for another clock. -/
theorem pf_next_stb (h : Inv mem s) (hs : (s.next mem i).pf.oWbStb = true) :
    (s.next mem i).pf.oWbCyc = true ∧
      (s.pf.oWbCyc = true → s.pf.oWbStb = true ∧ i.iNewPc = false ∧
        (s.stallTo .pf = false → s.pf.lastStb = false)) := by
  have hcyc := h.pfStb
  simp only [Soc.next, DblFetch.step, DblFetch.nextStb, DblFetch.nextCyc, Soc.pfInput] at hs ⊢
  grind

theorem masters_next (h : Inv mem s) (hw : Orderly s) :
    Masters (s.next mem i) := by
  refine ⟨?_, domem_next h hw, fun hs => (pf_next_stb h hs).1, ?_, ?_, ?_, ?_, ?_⟩
  · simp [Soc.next, MemOps.step, Soc.memInput]
  · intro hs hl
    rw [show (s.next mem i).owedPf = s.nextOwed mem i .pf from rfl]
    cases hc : s.pf.oWbCyc
    · exact nextOwed_idle (m := .pf) hc
    · obtain ⟨hst, -, hlast⟩ := (pf_next_stb h hs).2 hc
      have hstall : s.stallTo .pf = true ∧ s.pf.lastStb = false := by
        simp only [Soc.next, DblFetch.step, Soc.pfInput] at hl
        grind
      have ho : s.owed .pf = [] := h.pfFirst hst hstall.2
      simp [Soc.nextOwed, Soc.queue, ho, hstall.1]
  · intro hs e he
    rw [show (s.next mem i).owedPf = s.nextOwed mem i .pf from rfl] at he
    cases hc : s.pf.oWbCyc
    · rw [nextOwed_idle (m := .pf) hc] at he
      cases he
    · obtain ⟨hst, hpc, hlast⟩ := (pf_next_stb h hs).2 hc
      have he := nextOwed_mem he
      simp only [Soc.next, DblFetch.step, Soc.pfInput, hpc, hst]
      cases hstall : s.stallTo .pf
      · have ho : s.owed .pf = [] := h.pfFirst hst (hlast hstall)
        have hown : s.owner = .pf := by
          by_contra hn
          simp [Soc.stallTo, Ne.symm hn] at hstall
        have he' : e = s.shown mem i := by
          simpa [Soc.queue, ho, hstall, Soc.stbOf, hst] using he
        have ha : e.addr = s.pf.oWbAddr := by
          simp [he', Soc.shown, Soc.wbAddr, hown, Soc.addrOf]
        rw [ha]
        cases s.pf.invalidBusCycle <;> simp
      · have he' : e ∈ s.owedPf := by
          simpa [Soc.queue, hstall, Soc.owed] using he
        simpa using h.pfSecond hst e he'
  · intro m hm
    rw [next_owed]
    by_cases ho : m = s.owner
    · refine nextOwed_idle ?_
      cases hc : s.cycOf m
      · rfl
      · rw [ho] at hc hm
        simp [Soc.owner, Soc.next, Soc.nextOwner, Soc.wbCyc, Soc.owner] at hm hc
        simp [hc] at hm
    · exact nextOwed_other h ho
  · have hq := next_queue (i := i) h hw
    cases hc : s.wbCyc
    · rw [nextOwed_idle hc] at hq
      have hn : s.nextOwed mem i (s.next mem i).owner = [] := by
        by_cases ho : (s.next mem i).owner = s.owner
        · rw [ho]
          exact nextOwed_idle hc
        · exact nextOwed_other h ho
      rw [next_owed, hn]
      exact hq
    · have ho : (s.next mem i).owner = s.owner := by simp [Soc.owner, Soc.next, Soc.nextOwner, hc]
      rw [next_owed, ho, hq]
      rfl
  · intro m e he
    rw [next_owed] at he
    have he := nextOwed_mem he
    simp only [Soc.queue, List.mem_append] at he
    obtain he | he := he
    · exact h.own m e he
    · by_cases ho : m = s.owner
      · simp at he
        rw [he.2]
        exact ho.symm
      · simp [Soc.stallTo, ho] at he

theorem inv_next (h : Inv mem s) (hw : Orderly s) :
    Inv mem (s.next mem i) :=
  ⟨slaves_next h hw, masters_next h hw⟩

theorem inv_init (h : s.Init) : Inv mem s := by
  have hl : s.flashLine = [] := by
    simp [Soc.flashLine, Board.line, h.flash.core.oWbAck, h.flash.core.preAck]
  have ho : s.oneAck = false := by simp [Soc.oneAck, h.ioAck, h.scopAck, h.memAck]
  have hq : ∀ m, s.owed m = [] := fun m => by
    cases m
    · exact h.owedMem
    · exact h.owedPf
  refine ⟨⟨invariant_init h.flash, by simp [h.ioAck], by simp [h.scopAck], by simp [h.memAck],
    by simp [ho], by simp [ho], by simp [hl, h.flash.pending], by simp [hl]⟩,
    ⟨h.domemLock, by simp [h.domemStb], fun hs => (h.pfStb hs).1, fun _ _ => h.owedPf, ?_,
    fun m _ => hq m, by simp [hq, ho, hl], by simp [hq]⟩⟩
  simp [h.owedPf]

/-- In a run whose clocks are orderly, every answer is the one that is due. -/
theorem answered_of_run (mem : BitVec 24 → BitVec 8) (s : Soc)
    (hs : ((system mem).restrict fun s _ => Orderly s).Reachable s) (hw : Orderly s) (i : Input) :
    Answered mem s i := by
  have h : Inv mem s := hs.invariant (fun _ => inv_init) fun _ _ h ha => inv_next h ha.2
  exact answered_of_inv h hw

instance (s : Soc) : Decidable (Orderly s) :=
  decidable_of_iff (Timely s.flash s.flashRequest ∧ (s.noneSel = true → s.owed s.owner = []))
    ⟨fun ⟨h₁, h₂⟩ => ⟨h₁, h₂⟩, fun ⟨h₁, h₂⟩ => ⟨h₁, h₂⟩⟩

instance (mem : BitVec 24 → BitVec 8) (s : Soc) (i : Input) :
    Decidable (((system mem).restrict fun s _ => Orderly s).allowed s i) :=
  inferInstanceAs (Decidable (True ∧ Orderly s))

instance (mem : BitVec 24 → BitVec 8) (s : Soc) (i : Input) :
    Decidable ((system mem).allowed s i) :=
  inferInstanceAs (Decidable True)

def noEntry : Entry := ⟨.pf, 0, 0, 0⟩

def soc : Soc where
  domem :=
    { rWbCycGbl := false, lockGbl := false, oWbStbGbl := false, oWbWe := false, oWbAddr := 0
      oWbData := 0, oWbSel := 0, rOp := 0, oValid := false, oErr := false, oWreg := 0
      oResult := 0 }
  pf := DblFetch.initial 23 fun _ => 0
  aOwner := true
  ioAck := false
  scopAck := false
  memAck := false
  ioData := 0
  scopData := 0
  memData := 0
  flash := board
  now := 0
  owedMem := []
  owedPf := []
  last := noEntry
  reading := noEntry
  read := noEntry

theorem soc_init : soc.Init :=
  ⟨rfl, rfl, rfl, by decide, rfl, rfl, rfl, board_init, rfl, rfl⟩

def idle : Input where
  iStb := false
  iOp := 0
  iAddr := 0
  iData := 0
  iOreg := 0
  iNewPc := false
  iClearCache := false
  iPc := 0
  iStallN := false
  ioData := 0
  scopData := 0
  memData := 0x55

def jump (pc : BitVec 23) : Input := { idle with iNewPc := true, iPc := pc }

def load (addr : BitVec 32) : Input := { idle with iStb := true, iOp := 2, iAddr := addr }

/-- A fetch from the flash, left alone until its first word is acknowledged. -/
def fetching : List Input := [jump 0x480000] ++ List.replicate 44 idle

theorem answered_fetching : Answered bytes (fetching.foldl (Soc.next bytes) soc) idle :=
  answered_of_run bytes _
    (System.Reachable.foldl (M := (system bytes).restrict fun s _ => Orderly s)
      (System.reachable_init soc_init) (by decide +kernel)) (by decide +kernel) idle

/-- A fetch abandoned in its second to last clock, with a load from the block RAM waiting. -/
def abandoning : List Input :=
  [jump 0x480000] ++ List.replicate 29 idle ++ [load 0x4000] ++ List.replicate 12 idle ++
    [jump 0x480100, idle]

/-- The flash word of the fetch is acknowledged to the memory unit as the word loaded. -/
theorem abandoning_not_answered :
    ∃ s i, (system bytes).Reachable s ∧ s.domem.oWbAddr = 0x1000 ∧ s.ackTo .domem = true ∧
      s.wbIdata = QspiFlash.word bytes 0x80000 ∧ ¬Answered bytes s i := by
  refine ⟨abandoning.foldl (Soc.next bytes) soc, idle,
    System.Reachable.foldl (M := system bytes) (System.reachable_init soc_init)
      (by decide +kernel), by decide +kernel, by decide +kernel, by decide +kernel, fun ha => ?_⟩
  obtain ⟨e, rest, hq, -, hs, -⟩ := ha.oldest .domem (.inl (by decide +kernel))
  have hn : ((abandoning.foldl (Soc.next bytes) soc).queue bytes idle .domem).head?.map
        Entry.time ≠
      ((abandoning.foldl (Soc.next bytes) soc).sources bytes idle).head?.map Entry.time := by
    decide +kernel
  rw [hq, hs] at hn
  exact hn rfl

end S6Soc.BusMaster
