import Mathlib.Logic.Function.Basic
import S6Soc.DblFetchStream
import S6Soc.IDecode

/-! Bus errors on the way from the prefetch to the decoder: which of the words asked for an
error belongs to, and which instruction is taken up as illegal for it. -/
namespace S6Soc.FetchErrors
open Clocked DblFetch

/-- The prefetch and the decoder as `zipcpu` joins them, and what became of the words asked
for: those the slave has still to answer (oldest first), the data of the last acknowledged
fetch of each, and the one whose fetch failed in the last bus cycle. -/
structure Front where
  pf : DblFetch.State 23
  dcd : IDecode.State
  pending : List (BitVec 23)
  got : BitVec 23 → BitVec 32
  failed : Option (BitVec 23)
  /-- A fetch failed in the clock in which it was given up for a new PC. -/
  stale : Bool
  /-- Where the word came from that the decoder took up last. -/
  word : BitVec 23
  /-- A PC has been presented since the last reset or clear. -/
  live : Bool
  /-- A reset or clear has just come. -/
  flushed : Bool

structure Input where
  iReset : Bool
  iNewPc : Bool
  iClearCache : Bool
  iPc : BitVec 23
  iWbAck : Bool
  iWbStall : Bool
  iWbErr : Bool
  iWbData : BitVec 32
  opStall : Bool
  iGie : Bool

def Front.dcdStalled (x : Front) (i : Input) : Bool := x.dcd.rValid && i.opStall

def Front.dcdCe (x : Front) (i : Input) : Bool := !x.dcd.rValid || !x.dcdStalled i

def Front.pfStalled (x : Front) (i : Input) : Bool := x.dcdStalled i || x.dcd.rPhase

def Front.pfInput (x : Front) (i : Input) : DblFetch.Input 23 where
  iReset := i.iReset
  iNewPc := i.iNewPc
  iClearCache := i.iClearCache
  iStallN := !x.pfStalled i
  iPc := i.iPc
  iWbAck := i.iWbAck
  iWbStall := i.iWbStall
  iWbErr := i.iWbErr
  iWbData := i.iWbData

def Front.dcdInput (x : Front) (i : Input) : IDecode.Input where
  iRst := i.iNewPc || i.iClearCache
  iCe := x.dcdCe i
  iStalled := x.dcdStalled i
  iInstruction := x.pf.oInsn
  iGie := i.iGie
  iPc := x.pf.oPc
  iPfValid := x.pf.oValid
  iIllegal := x.pf.oIllegal

/-- The requests the slave may answer in this clock, an accepted one included. -/
def Front.queue (x : Front) (i : Input) : List (BitVec 23) :=
  x.pending ++ accepted x.pf (x.pfInput i)

/-- The decoder takes up what the prefetch shows it, or its second half. -/
def Front.latches (x : Front) (i : Input) : Bool := x.dcdCe i && !(i.iNewPc || i.iClearCache)

def Front.fails (x : Front) (i : Input) : Bool := x.pf.oWbCyc && i.iWbErr

def Front.next (x : Front) (i : Input) : Front where
  pf := step x.pf (x.pfInput i)
  dcd := IDecode.step x.dcd (x.dcdInput i)
  pending :=
    if !x.pf.oWbCyc then []
    else if i.iWbAck || i.iWbErr then (x.queue i).tail
    else x.queue i
  got :=
    if x.pf.oWbCyc && i.iWbAck then
      (x.queue i).head?.elim x.got fun a => Function.update x.got a i.iWbData
    else x.got
  failed :=
    if i.iNewPc then none
    else if x.fails i then (x.queue i).head?
    else if !x.pf.oWbCyc && nextCyc x.pf (x.pfInput i) then none
    else x.failed
  stale := i.iNewPc && x.fails i
  word :=
    if x.latches i && x.pf.oValid && !x.dcd.rPhase then x.pf.oPc else x.word
  live :=
    if i.iReset || i.iClearCache then false
    else if i.iNewPc then true
    else x.live
  flushed := i.iReset || i.iClearCache

/-- The slave answers requests, each once, with an acknowledgement or an error; the processor
presents a PC after a reset or a clear. -/
structure Allowed (x : Front) (i : Input) : Prop where
  answers : x.pf.oWbCyc = true → i.iWbAck = true ∨ i.iWbErr = true → (x.queue i).head?.isSome = true
  once : ¬ (i.iWbAck = true ∧ i.iWbErr = true)
  flushed : x.flushed = true → i.iNewPc = true

instance (x : Front) (i : Input) : Decidable (Allowed x i) :=
  decidable_of_iff ((x.pf.oWbCyc = true → i.iWbAck = true ∨ i.iWbErr = true →
      (x.queue i).head?.isSome = true) ∧ ¬ (i.iWbAck = true ∧ i.iWbErr = true) ∧
      (x.flushed = true → i.iNewPc = true))
    ⟨fun ⟨h₁, h₂, h₃⟩ => ⟨h₁, h₂, h₃⟩, fun ⟨h₁, h₂, h₃⟩ => ⟨h₁, h₂, h₃⟩⟩

structure Start (x : Front) : Prop where
  pf : ∃ cache, x.pf = DblFetch.initial 23 cache
  dcd : x.dcd.Initial
  pending : x.pending = []
  failed : x.failed = none
  stale : x.stale = false
  live : x.live = false
  flushed : x.flushed = false

def system : System Front Input where
  init := Start
  allowed := Allowed
  next := Front.next

instance (x : Front) (i : Input) : Decidable (system.allowed x i) :=
  inferInstanceAs (Decidable (Allowed x i))

/-- The word of the instruction the decoder takes up. -/
def Front.own (x : Front) : BitVec 23 := if x.dcd.rPhase then x.word else x.pf.oPc

/-- Errors are laid to the words that they belong to. -/
structure Attributed (x : Front) (i : Input) : Prop where
  error : x.latches i = true → x.pf.oIllegal = true → x.failed = some x.own
  word : x.latches i = true → x.pf.oValid = true → x.dcd.rPhase = false →
    x.pf.oIllegal = false ∧ x.pf.oInsn = x.got x.pf.oPc

/-- The decoder goes on in the clock after an error that a new PC has made void, or, an error
waiting for it, takes up a word that was fetched before, or the second half of one. -/
def Misled (x : Front) (i : Input) : Prop :=
  x.latches i = true ∧ (x.stale = true ∨
    (x.failed.isSome = true ∧ (x.pf.oValid = true ∨ x.dcd.rPhase = true)))

variable {x : Front} {i : Input} {s : DblFetch.State 23} {q : DblFetch.Input 23}
  {pending : List (BitVec 23)} {base r : BitVec 23} {k a : ℕ} {mem : BitVec 23 → BitVec 32}
  {d : BitVec 32}

def calm (q : DblFetch.Input 23) : DblFetch.Input 23 := { q with iWbErr := false }

/-- An error off the bus is not seen. -/
theorem step_calm (h : (s.oWbCyc && q.iWbErr) = false) : step s (calm q) = step s q := by
  cases hc : s.oWbCyc with
  | false =>
    simp [step, nextCyc, nextStb, taken, acked, calm, hc]
    rfl
  | true =>
    rw [hc, Bool.true_and] at h
    rw [calm, ← h]

/-- What an error leaves as it would have been. -/
theorem void_of_calm {pc : BitVec 23} (h : Void (step s (calm q)) pc) : Void (step s q) pc :=
  ⟨h.invalid, h.cacheValid, h.readAddr, h.oPc, h.addr⟩

theorem words_of_calm (h : Words mem (step s (calm q)) base k) : Words mem (step s q) base k :=
  ⟨h.current, h.read, h.first, h.second, h.oPc, h.insn, h.cached⟩

theorem add_one_ne (b : BitVec 23) : b + 1 ≠ b := by
  intro h
  have : (1 : BitVec 23) = 0 := by grind
  exact absurd this (by decide)

/-- The oldest request without an answer is for the word of the pair that comes next. -/
theorem head_queue (h : Requests s pending base k a)
    (hr : (pending ++ accepted s q).head? = some r) : r = base + BitVec.ofNat 23 k := by
  obtain ⟨⟨h₁, h₂, h₃⟩, hcyc, hstb, -, -, -, haddr, hp⟩ := h
  interval_cases a <;> interval_cases k <;> simp [window] at hp hstb haddr <;>
    cases hst : q.iWbStall <;> simp_all [accepted]

/-- The data of the next word are not those of the words before it. -/
theorem words_update (h : Words mem s base k) (hk : k ≤ 1) :
    Words (Function.update mem (base + BitVec.ofNat 23 k) d) s base k := by
  refine ⟨h.current, h.read, h.first, h.second, h.oPc, fun hv => ?_, fun h₂ => by omega⟩
  have hb : s.cacheReadAddr = false ∧ k = 1 := by
    have hf := h.first
    have hs := h.second
    cases hr : s.cacheReadAddr with
    | false =>
      rw [State.oValid, hr, hf, hr] at hv
      exact ⟨rfl, by simpa using Nat.le_antisymm hk (by simpa using hv)⟩
    | true =>
      rw [State.oValid, hr, hs, decide_eq_true_iff] at hv
      omega
  have hpc := h.oPc
  rw [hb.1, if_neg (by simp)] at hpc
  rw [h.insn hv, hpc, hb.2]
  exact (Function.update_of_ne (add_one_ne base).symm _ _).symm

/-- Nothing but the second word of a pair has the next one asked for. -/
theorem not_taken_second (h : Words mem s base k) (hk : k ≤ 1) :
    (taken s q && s.cacheReadAddr) = false := by
  cases ht : taken s q && s.cacheReadAddr with
  | false => rfl
  | true => have := h.taken_second ht; omega

inductive Flow (x : Front) : Prop
  | void : Void x.pf x.pf.oPc →
      (x.pf.oWbCyc = true → (∀ a ∈ x.pending, a = x.pf.oPc) ∧ x.failed = none ∧ x.stale = false) →
      (∀ f ∈ x.failed, f = x.pf.oPc) → x.dcd.rPhase = false → Flow x
  | fetching (b : BitVec 23) (j c : ℕ) : Requests x.pf x.pending b j c → Words x.got x.pf b j →
      x.failed = none → x.stale = false → Flow x
  | holding (b : BitVec 23) : Idle x.pf b → Words x.got x.pf b 2 → x.failed = none →
      x.stale = false → Flow x
  | broken (b : BitVec 23) (j : ℕ) : j ≤ 1 → x.pf.oWbCyc = false → x.pf.oWbStb = false →
      Words x.got x.pf b j → x.failed = some (b + BitVec.ofNat 23 j) → x.stale = false → Flow x

/-- No PC has been presented yet. -/
structure Asleep (x : Front) : Prop where
  cyc : x.pf.oWbCyc = false
  stb : x.pf.oWbStb = false
  legal : x.pf.oIllegal = false
  cacheValid : x.pf.cacheValid = fun _ => false
  current : x.pf.invalidBusCycle = false
  phase : x.dcd.rPhase = false
  failed : x.failed = none
  stale : x.stale = false

structure Sound (x : Front) : Prop where
  stbCyc : x.pf.oWbStb = true → x.pf.oWbCyc = true
  legal : x.pf.oWbCyc = true → x.pf.oIllegal = false
  flow : x.live = true → Flow x
  illegal : x.live = true → x.pf.oIllegal = (x.stale || x.failed.isSome)
  fresh : x.stale = true → x.failed = none
  phase : x.live = true → x.dcd.rPhase = true → x.pf.oPc = x.word + 1
  asleep : x.live = false → x.flushed = true ∨ Asleep x
  flushed : x.flushed = true → x.live = false

theorem sound_of_start (h : Start x) : Sound x := by
  obtain ⟨cache, hp⟩ := h.pf
  have hs : Asleep x := by
    constructor <;> simp [hp, DblFetch.initial, h.dcd.rPhase, h.failed, h.stale]
  constructor
  · simp [hs.stb]
  · simp [hs.cyc]
  · simp [h.live]
  · simp [h.live]
  · simp [hs.stale]
  · simp [h.live]
  · exact fun _ => Or.inr hs
  · simp [h.flushed]

/-- The second word of a pair is only taken when nothing has failed. -/
theorem Sound.legal_of_second (h : Sound x) (hf : x.flushed = false)
    (ht : (taken x.pf q && x.pf.cacheReadAddr) = true) : x.pf.oIllegal = false := by
  cases hl : x.live with
  | false =>
    rcases h.asleep hl with hf' | ha
    · rw [hf] at hf'
      cases hf'
    · exact ha.legal
  | true =>
    have hill := h.illegal hl
    cases h.flow hl with
    | void hv => simp [hv.not_taken] at ht
    | fetching base k a hr => exact h.legal hr.cyc
    | holding base hi hw hn hs => rw [hill, hn, hs]; rfl
    | broken base k hk hc hs hw =>
      rw [not_taken_second hw hk] at ht
      cases ht

theorem Sound.legal_next (h : Sound x) (ha : Allowed x i) (hc : (x.next i).pf.oWbCyc = true) :
    (x.next i).pf.oIllegal = false := by
  change nextCyc x.pf (x.pfInput i) = true at hc
  change (if x.pf.oWbCyc && i.iWbErr then true
    else if !x.pf.oWbCyc && (i.iNewPc || x.pf.invalidBusCycle) then false
    else x.pf.oIllegal) = false
  have herr : (x.pf.oWbCyc && i.iWbErr) = false := by
    cases he : x.pf.oWbCyc && i.iWbErr with
    | false => rfl
    | true =>
      have he' : (x.pf.oWbCyc && (x.pfInput i).iWbErr) = true := he
      simp [nextCyc, he'] at hc
  rw [herr, if_neg (by simp)]
  cases hcyc : x.pf.oWbCyc with
  | true => simpa using h.legal hcyc
  | false =>
    by_cases hn : (i.iNewPc || x.pf.invalidBusCycle) = true
    · rw [hn]
      rfl
    · rw [Bool.not_eq_true, Bool.or_eq_false_iff] at hn
      obtain ⟨hn, hv⟩ := hn
      have hfl : x.flushed = false := by
        cases hf : x.flushed with
        | false => rfl
        | true => rw [ha.flushed hf] at hn; cases hn
      have hn' : (x.pfInput i).iNewPc = false := hn
      have ht : (taken x.pf (x.pfInput i) && x.pf.cacheReadAddr) = true := by
        simp [nextCyc, hcyc, hv, hn'] at hc
        simpa using hc.2
      simp [hn, hv, h.legal_of_second hfl ht]

theorem next_pf : (x.next i).pf = step x.pf (x.pfInput i) := rfl

theorem Sound.stbCyc_next (h : Sound x) (hs : (x.next i).pf.oWbStb = true) :
    (x.next i).pf.oWbCyc = true :=
  nextStb_cyc (s := x.pf) (i := x.pfInput i) h.stbCyc hs

theorem phase_reset (hr : (i.iNewPc || i.iClearCache) = true) :
    (x.next i).dcd.rPhase = false := by
  have hr' : (x.dcdInput i).iRst = true := hr
  change (IDecode.step x.dcd (x.dcdInput i)).rPhase = false
  simp [IDecode.step, hr']

/-- A second half is left by a word just taken, or is still waiting. -/
theorem phase_next (hn : i.iNewPc = false) (hp : (x.next i).dcd.rPhase = true) :
    (x.dcd.rPhase = false ∧ taken x.pf (x.pfInput i) = true ∧ (x.next i).word = x.pf.oPc) ∨
      (x.dcd.rPhase = true ∧ taken x.pf (x.pfInput i) = false ∧ (x.next i).word = x.word) := by
  have hc : i.iClearCache = false := by
    cases hc : i.iClearCache with
    | false => rfl
    | true => rw [phase_reset (by simp [hc])] at hp; cases hp
  change (if i.iNewPc || i.iClearCache then false
    else if x.dcdCe i && x.pf.oValid then !x.dcd.rPhase && x.pf.oInsn.getLsbD 31
    else if x.dcdCe i then false
    else x.dcd.rPhase) = true at hp
  have hce : x.dcdCe i = !x.dcdStalled i := by
    simp only [Front.dcdCe, Front.dcdStalled]
    cases x.dcd.rValid <;> rfl
  have ht : taken x.pf (x.pfInput i) = (x.pf.oValid && !(x.dcdStalled i || x.dcd.rPhase)) := rfl
  have hw : (x.next i).word =
      if x.dcdCe i && !(i.iNewPc || i.iClearCache) && x.pf.oValid && !x.dcd.rPhase then x.pf.oPc
      else x.word := rfl
  rw [hn, hc] at hp hw
  rw [hce] at hp hw
  rw [ht, hw]
  cases hph : x.dcd.rPhase <;> cases hst : x.dcdStalled i <;> cases hv : x.pf.oValid <;>
    simp [hph, hst, hv] at hp ⊢

theorem oPc_next (hn : i.iNewPc = false) : (x.next i).pf.oPc =
    if taken x.pf (x.pfInput i) then x.pf.oPc + 1 else x.pf.oPc := by
  have hn' : (x.pfInput i).iNewPc = false := hn
  simp [next_pf, step, hn']

/-- The words got, and a new one, if one has come. -/
theorem got_next (hc : x.pf.oWbCyc = true) (hb : i.iWbAck = true)
    (hr : (x.queue i).head? = some r) :
    (x.next i).got = Function.update x.got r i.iWbData := by
  simp [Front.next, hc, hb, hr]

theorem got_next_of_not_acked (h : (x.pf.oWbCyc && i.iWbAck) = false) : (x.next i).got = x.got := by
  simp [Front.next, h]

/-- A clock of the stream that goes on. -/
structure Going (i : Input) : Prop where
  reset : i.iReset = false
  newPc : i.iNewPc = false
  clear : i.iClearCache = false

theorem Going.quiet (h : Going i) : Quiet (calm (x.pfInput i)) := ⟨h.reset, h.newPc, h.clear, rfl⟩

theorem Sound.flow_void (h : Sound x) (hg : Going i)
    (hv : Void x.pf x.pf.oPc)
    (hb : x.pf.oWbCyc = true →
      (∀ a ∈ x.pending, a = x.pf.oPc) ∧ x.failed = none ∧ x.stale = false)
    (hp : x.dcd.rPhase = false) : Flow (x.next i) := by
  have hq := hg.quiet (x := x)
  have hphase : (x.next i).dcd.rPhase = false := by
    cases hp' : (x.next i).dcd.rPhase with
    | false => rfl
    | true =>
      rcases phase_next hg.newPc hp' with ⟨-, ht, -⟩ | ⟨h', -, -⟩
      · rw [hv.not_taken] at ht
        cases ht
      · rw [hp] at h'
        cases h'
  cases hc : x.pf.oWbCyc with
  | false =>
    have hs : x.pf.oWbStb = false := by
      cases hs : x.pf.oWbStb with
      | false => rfl
      | true => rw [h.stbCyc hs] at hc; cases hc
    obtain ⟨hr, hw⟩ : Requests (step x.pf (calm (x.pfInput i))) [] x.pf.oPc 0 0 ∧
        Words (x.next i).got (step x.pf (calm (x.pfInput i))) x.pf.oPc 0 := hv.restart hq hc hs
    rw [step_calm (by rw [hc]; rfl)] at hr hw
    refine .fetching x.pf.oPc 0 0 ?_ hw ?_ ?_
    · have hp' : (x.next i).pending = [] := by simp [Front.next, hc]
      rw [hp']
      exact hr
    · have hn : nextCyc x.pf (x.pfInput i) = true := hr.cyc
      simp [Front.next, hg.newPc, Front.fails, hc, hn]
    · simp [Front.next, hg.newPc]
  | true =>
    obtain ⟨hpend, hf, -⟩ := hb hc
    have hqueue : ∀ a ∈ x.queue i, a = x.pf.oPc := by
      intro a ha
      rcases List.mem_append.1 ha with ha | ha
      · exact hpend a ha
      · unfold accepted at ha
        split_ifs at ha
        · rw [List.mem_singleton.1 ha, hv.addr]
        · cases ha
    have hbusy := void_of_calm (hv.busy hq hc)
    have hpc : (x.next i).pf.oPc = x.pf.oPc := hbusy.oPc
    refine .void ?_ ?_ ?_ hphase
    · rw [hpc]
      exact hbusy
    · intro hc'
      have herr : i.iWbErr = false := by
        cases he : i.iWbErr with
        | false => rfl
        | true =>
          change nextCyc x.pf (x.pfInput i) = true at hc'
          have he' : (x.pfInput i).iWbErr = true := he
          simp [nextCyc, hc, he'] at hc'
      refine ⟨?_, ?_, ?_⟩
      · intro a ha
        rw [hpc]
        apply hqueue
        have hp' : (x.next i).pending =
            if i.iWbAck || i.iWbErr then (x.queue i).tail else x.queue i := by
          simp [Front.next, hc]
        rw [hp'] at ha
        split_ifs at ha
        · exact List.mem_of_mem_tail ha
        · exact ha
      · simp [Front.next, hg.newPc, Front.fails, hc, herr, hf]
      · simp [Front.next, hg.newPc]
    · intro f hf'
      rw [hpc]
      have hn : (x.next i).failed = if i.iWbErr then (x.queue i).head? else none := by
        simp [Front.next, hg.newPc, Front.fails, hc, hf]
      rw [hn] at hf'
      split_ifs at hf'
      · exact hqueue f (List.mem_of_mem_head? hf')
      · cases hf'

theorem flow_fetching (ha : Allowed x i) (hg : Going i)
    (hr : Requests x.pf x.pending base k a) (hw : Words x.got x.pf base k)
    (hf : x.failed = none) : Flow (x.next i) := by
  have hq := hg.quiet (x := x)
  obtain ⟨hka, ha₂, hk⟩ := hr.order
  have ht := not_taken_second (q := calm (x.pfInput i)) hw hk
  have hstale : (x.next i).stale = false := by simp [Front.next, hg.newPc]
  have hhead : ∀ r, (x.queue i).head? = some r → r = base + BitVec.ofNat 23 k :=
    fun r h => head_queue hr h
  cases he : i.iWbErr with
  | true =>
    have hb : i.iWbAck = false := by
      cases hb : i.iWbAck with
      | false => rfl
      | true => exact absurd ⟨hb, he⟩ ha.once
    obtain ⟨r, hr'⟩ := Option.isSome_iff_exists.1 (ha.answers hr.cyc (Or.inr he))
    have hacked : acked x.pf (calm (x.pfInput i)) = false := by
      change (x.pf.oWbCyc && i.iWbAck) = false
      rw [hb, Bool.and_false]
    have hwords := hw.step hq (by omega) (by simp [hacked]) ht
    rw [hacked] at hwords
    have he' : (x.pf.oWbCyc && (x.pfInput i).iWbErr) = true := by
      rw [hr.cyc]
      exact he
    refine .broken base k hk ?_ ?_ ?_ ?_ hstale
    · change nextCyc x.pf (x.pfInput i) = false
      simp [nextCyc, he']
    · change nextStb x.pf (x.pfInput i) = false
      simp [nextStb, he']
    · rw [got_next_of_not_acked (by rw [hb, Bool.and_false])]
      exact words_of_calm hwords
    · rw [← hhead r hr', ← hr']
      simp [Front.next, hg.newPc, Front.fails, hr.cyc, he]
  | false =>
    have hcalm := step_calm (s := x.pf) (q := x.pfInput i)
      (by change (x.pf.oWbCyc && i.iWbErr) = false; rw [he, Bool.and_false])
    have hfail : (x.next i).failed = none := by
      simp [Front.next, hg.newPc, Front.fails, hr.cyc, he, hf]
    have hpend : (x.next i).pending =
        if i.iWbAck then (x.queue i).tail else x.queue i := by
      simp [Front.next, hr.cyc, he]
    have hacked : acked x.pf (calm (x.pfInput i)) = i.iWbAck := by
      change (x.pf.oWbCyc && i.iWbAck) = _
      rw [hr.cyc, Bool.true_and]
    -- the data got, of which those of the words before stay
    have hgot : Words (x.next i).got x.pf base k ∧ (i.iWbAck = true →
        ∃ r ∈ (x.queue i).head?, i.iWbData = (x.next i).got r) := by
      cases hb : i.iWbAck with
      | false =>
        rw [got_next_of_not_acked (by rw [hb, Bool.and_false])]
        exact ⟨hw, fun h => by cases h⟩
      | true =>
        obtain ⟨r, hr'⟩ := Option.isSome_iff_exists.1 (ha.answers hr.cyc (Or.inl hb))
        rw [got_next hr.cyc hb hr', hhead r hr']
        refine ⟨words_update hw hk, fun _ => ⟨r, hr', ?_⟩⟩
        rw [hhead r hr', Function.update_self]
    obtain ⟨hw', hdata⟩ := hgot
    have hans : i.iWbAck = true → k < bump (x.pf.oWbStb && !i.iWbStall) a ∧
        i.iWbData = (x.next i).got (base + BitVec.ofNat 23 k) :=
      fun hb => hr.answer (i := calm (x.pfInput i)) (hdata hb)
    have hwords := hw'.step hq (by omega) (fun hb => by
      rw [hacked] at hb
      exact ⟨hk, hr.writeAddr, (hans hb).2⟩) ht
    rw [hacked, hcalm] at hwords
    by_cases hk' : bump i.iWbAck k ≤ 1
    · have hreq := hr.step hq hw.current (fun hb => (hans hb).1) hk'
      rw [hcalm] at hreq
      refine .fetching base (bump i.iWbAck k) (bump (x.pf.oWbStb && !i.iWbStall) a) ?_ hwords hfail
        hstale
      rw [hpend]
      exact hreq
    · have hb : i.iWbAck = true := by
        by_contra hn
        simp [bump, hn] at hk'
        omega
      obtain rfl : k = 1 := by simp [bump, hb] at hk'; omega
      have hidle := hr.finish hq hw.current hb (hans hb).1
      rw [hcalm] at hidle
      refine .holding base hidle ?_ hfail hstale
      rw [hb] at hwords
      exact hwords

theorem flow_holding (hg : Going i) (hi : Idle x.pf base) (hw : Words x.got x.pf base 2)
    (hf : x.failed = none) : Flow (x.next i) := by
  have hq := hg.quiet (x := x)
  have hcalm := step_calm (s := x.pf) (q := x.pfInput i) (by rw [hi.cyc]; rfl)
  have hstale : (x.next i).stale = false := by simp [Front.next, hg.newPc]
  have hfail : (x.next i).failed = none := by
    simp [Front.next, hg.newPc, Front.fails, hi.cyc, hf]
  have hgot : (x.next i).got = x.got := got_next_of_not_acked (by rw [hi.cyc]; rfl)
  have hacked : acked x.pf (calm (x.pfInput i)) = false := by simp [acked, hi.cyc]
  cases ht : taken x.pf (calm (x.pfInput i)) && x.pf.cacheReadAddr with
  | true =>
    have hreq := hi.restart hq ht
    have hwords := hw.restart hq hi.cyc ht
    rw [hcalm] at hreq hwords
    refine .fetching (base + 2) 0 0 ?_ ?_ hfail hstale
    · have hp : (x.next i).pending = [] := by simp [Front.next, hi.cyc]
      rw [hp]
      exact hreq
    · rw [hgot]
      exact hwords
  | false =>
    have hwords := hw.step hq le_rfl (by simp [hacked]) ht
    have hidle := hi.stay hq hw.current ht
    rw [hcalm] at hwords hidle
    rw [hacked] at hwords
    refine .holding base hidle ?_ hfail hstale
    rw [hgot]
    exact hwords

theorem flow_broken (hg : Going i) (hk : k ≤ 1) (hc : x.pf.oWbCyc = false)
    (hs : x.pf.oWbStb = false) (hw : Words x.got x.pf base k)
    (hf : x.failed = some (base + BitVec.ofNat 23 k)) : Flow (x.next i) := by
  have hq := hg.quiet (x := x)
  have hcalm := step_calm (s := x.pf) (q := x.pfInput i) (by rw [hc]; rfl)
  have ht := not_taken_second (q := x.pfInput i) hw hk
  have hacked : acked x.pf (calm (x.pfInput i)) = false := by simp [acked, hc]
  have hwords := hw.step hq (by omega) (by simp [hacked])
    (not_taken_second (q := calm (x.pfInput i)) hw hk)
  rw [hcalm, hacked] at hwords
  have hnew : (x.pfInput i).iNewPc = false := hg.newPc
  have hcyc : nextCyc x.pf (x.pfInput i) = false := by
    simp [nextCyc, hc, hnew, hw.current, ht]
  refine .broken base k hk hcyc ?_ ?_ ?_ (by simp [Front.next, hg.newPc])
  · change nextStb x.pf (x.pfInput i) = false
    simp [nextStb, hc, hnew, hw.current, ht, hs]
  · rw [got_next_of_not_acked (by rw [hc]; rfl)]
    exact hwords
  · simp [Front.next, hg.newPc, Front.fails, hc, hcyc, hf]

theorem Sound.flow_next (h : Sound x) (ha : Allowed x i) (hg : Going i) (hl : x.live = true) :
    Flow (x.next i) := by
  cases h.flow hl with
  | void hv hb _ hp => exact h.flow_void hg hv hb hp
  | fetching base k a hr hw hf _ => exact flow_fetching ha hg hr hw hf
  | holding base hi hw hf _ => exact flow_holding hg hi hw hf
  | broken base k hk hc hs hw hf _ => exact flow_broken hg hk hc hs hw hf

theorem illegal_next (hn : i.iNewPc = false) : (x.next i).pf.oIllegal =
    if x.fails i then true
    else if !x.pf.oWbCyc && x.pf.invalidBusCycle then false
    else x.pf.oIllegal := by
  have hn' : (x.pfInput i).iNewPc = false := hn
  change (if x.pf.oWbCyc && (x.pfInput i).iWbErr then true
    else if !x.pf.oWbCyc && ((x.pfInput i).iNewPc || x.pf.invalidBusCycle) then false
    else x.pf.oIllegal) = _
  rw [hn', Bool.false_or]
  rfl

/-- The error flag is up just when a fetch has failed. -/
theorem Sound.illegal_flow_next (h : Sound x) (ha : Allowed x i) (hg : Going i)
    (hl : x.live = true) :
    (x.next i).pf.oIllegal = ((x.next i).stale || (x.next i).failed.isSome) := by
  have hstale : (x.next i).stale = false := by simp [Front.next, hg.newPc]
  rw [hstale, Bool.false_or, illegal_next hg.newPc]
  cases hf : x.fails i with
  | true =>
    have hc : x.pf.oWbCyc = true ∧ i.iWbErr = true := by
      rw [Front.fails, Bool.and_eq_true] at hf
      exact hf
    have hn : (x.next i).failed = (x.queue i).head? := by simp [Front.next, hg.newPc, hf]
    rw [if_pos rfl, hn, ha.answers hc.1 (Or.inr hc.2)]
  | false =>
    have hn : (x.next i).failed =
        if !x.pf.oWbCyc && nextCyc x.pf (x.pfInput i) then none else x.failed := by
      simp [Front.next, hg.newPc, hf]
    rw [if_neg (by simp), hn]
    cases hc : x.pf.oWbCyc with
    | true =>
      have hill := h.illegal hl
      rw [h.legal hc] at hill
      have hnone : x.failed.isSome = false := by
        cases hs : x.failed.isSome with
        | false => rfl
        | true => rw [hs, Bool.or_true] at hill; cases hill
      simp [h.legal hc, hnone]
    | false =>
      have hnew : (x.pfInput i).iNewPc = false := hg.newPc
      have hres : (x.pfInput i).iReset = false := hg.reset
      cases h.flow hl with
      | void hv hb _ hp =>
        have hcyc : nextCyc x.pf (x.pfInput i) = true := by
          simp [nextCyc, hc, hres, hv.invalid]
        simp [hv.invalid, hcyc]
      | fetching base k a hr => rw [hr.cyc] at hc; cases hc
      | holding base hi hw hnone hst =>
        have hill := h.illegal hl
        rw [hst, hnone] at hill
        simp [hw.current, hill, hnone]
      | broken base k hk _ hs hw hsome hst =>
        have hill := h.illegal hl
        rw [hst, hsome] at hill
        have ht := not_taken_second (q := x.pfInput i) hw hk
        have hcyc : nextCyc x.pf (x.pfInput i) = false := by
          simp [nextCyc, hc, hnew, hw.current, ht]
        simp [hw.current, hcyc, hill, hsome]

/-- A new PC makes everything before it void. -/
theorem flow_newPc (hr : i.iReset = false) (hn : i.iNewPc = true) :
    Flow (x.next i) := by
  have hv : Void (x.next i).pf i.iPc := void_of_newPc (s := x.pf) (i := x.pfInput i) hr hn
  have hfail : (x.next i).failed = none := by simp [Front.next, hn]
  refine .void ?_ ?_ ?_ (phase_reset (by rw [hn]; rfl))
  · rw [hv.oPc]
    exact hv
  · intro hc'
    have hc : x.pf.oWbCyc = false := by
      cases hc : x.pf.oWbCyc with
      | false => rfl
      | true =>
        change nextCyc x.pf (x.pfInput i) = true at hc'
        have hn' : (x.pfInput i).iNewPc = true := hn
        simp [nextCyc, hc, hn'] at hc'
    refine ⟨?_, hfail, ?_⟩
    · simp [Front.next, hc]
    · simp [Front.next, Front.fails, hc]
  · rw [hfail]
    intro f hf
    cases hf

theorem Sound.illegal_newPc (h : Sound x) (hn : i.iNewPc = true) :
    (x.next i).pf.oIllegal = ((x.next i).stale || (x.next i).failed.isSome) := by
  have hfail : (x.next i).failed = none := by simp [Front.next, hn]
  have hstale : (x.next i).stale = x.fails i := by simp [Front.next, hn]
  rw [hfail, hstale, Option.isSome_none, Bool.or_false]
  change (if x.fails i then true
    else if !x.pf.oWbCyc && (i.iNewPc || x.pf.invalidBusCycle) then false
    else x.pf.oIllegal) = x.fails i
  cases hf : x.fails i with
  | true => rfl
  | false =>
    cases hc : x.pf.oWbCyc with
    | true => simpa using h.legal hc
    | false => simp [hn]

theorem Asleep.next (h : Asleep x) (hg : Going i) : Asleep (x.next i) := by
  have ht : taken x.pf (x.pfInput i) = false := by simp [taken, State.oValid, h.cacheValid]
  have hnew : (x.pfInput i).iNewPc = false := hg.newPc
  have hres : (x.pfInput i).iReset = false := hg.reset
  have hclr : (x.pfInput i).iClearCache = false := hg.clear
  constructor
  · simp [next_pf, step, nextCyc, h.cyc, hnew, h.current, ht]
  · simp [next_pf, step, nextStb, h.cyc, h.stb, hnew, h.current, ht]
  · simp [next_pf, step, h.cyc, h.current, hnew, h.legal]
  · simp [next_pf, step, h.current, hnew, hres, ht, acked, h.cyc, h.cacheValid]
  · simp [next_pf, step, hres, hnew, hclr, h.cyc]
  · cases hp : (x.next i).dcd.rPhase with
    | false => rfl
    | true =>
      rcases phase_next hg.newPc hp with ⟨-, ht', -⟩ | ⟨hp', -⟩
      · rw [ht] at ht'
        cases ht'
      · rw [h.phase] at hp'
        cases hp'
  · simp [Front.next, hg.newPc, Front.fails, h.cyc, h.failed]
  · simp [Front.next, hg.newPc]

theorem Sound.next (h : Sound x) (ha : Allowed x i) : Sound (x.next i) := by
  have hlive : (x.next i).live =
      if i.iReset || i.iClearCache then false else if i.iNewPc then true else x.live := rfl
  have hflush : (x.next i).flushed = (i.iReset || i.iClearCache) := rfl
  have hfresh : (x.next i).stale = true → (x.next i).failed = none := by
    intro hs
    have hn : i.iNewPc = true := (Bool.and_eq_true _ _ ▸ hs : _ ∧ _).1
    simp [Front.next, hn]
  cases hf : i.iReset || i.iClearCache with
  | true =>
    rw [hf] at hlive hflush
    constructor
    · exact h.stbCyc_next
    · exact h.legal_next ha
    · simp [hlive]
    · simp [hlive]
    · exact hfresh
    · simp [hlive]
    · exact fun _ => Or.inl hflush
    · exact fun _ => hlive
  | false =>
    rw [hf] at hlive hflush
    obtain ⟨hr, hc⟩ := Bool.or_eq_false_iff.1 hf
    cases hn : i.iNewPc with
    | true =>
      rw [hn] at hlive
      constructor
      · exact h.stbCyc_next
      · exact h.legal_next ha
      · exact fun _ => flow_newPc hr hn
      · exact fun _ => h.illegal_newPc hn
      · exact hfresh
      · intro _ hp
        rw [phase_reset (by rw [hn]; rfl)] at hp
        cases hp
      · simp [hlive]
      · simp [hflush]
    | false =>
      rw [hn] at hlive
      have hg : Going i := ⟨hr, hn, hc⟩
      have hl : (x.next i).live = x.live := hlive
      constructor
      · exact h.stbCyc_next
      · exact h.legal_next ha
      · exact fun hl' => h.flow_next ha hg (hl ▸ hl')
      · exact fun hl' => h.illegal_flow_next ha hg (hl ▸ hl')
      · exact hfresh
      · intro hl' hp
        rw [oPc_next hn]
        rcases phase_next hn hp with ⟨-, ht, hw⟩ | ⟨hp', ht, hw⟩
        · rw [ht, if_pos rfl, hw]
        · rw [ht, if_neg (by simp), hw]
          exact h.phase (hl ▸ hl') hp'
      · intro hl'
        rcases h.asleep (hl ▸ hl') with hfl | has
        · rw [ha.flushed hfl] at hn
          cases hn
        · exact Or.inr (has.next hg)
      · simp [hflush]

theorem sound_of_reachable (h : system.Reachable x) : Sound x :=
  h.invariant (fun _ => sound_of_start) fun _ _ => Sound.next

/-- The word whose fetch failed is the next one the decoder waits for, or the one after that. -/
theorem Flow.failed_near (h : Flow x) {f : BitVec 23} (hf : x.failed = some f) :
    f = x.pf.oPc ∨ (f = x.pf.oPc + 1 ∧ x.pf.oValid = true) := by
  cases h with
  | void hv hb hall hp => exact Or.inl (hall f hf)
  | fetching base k a hr hw hn => rw [hn] at hf; cases hf
  | holding base hi hw hn => rw [hn] at hf; cases hf
  | broken base k hk hc hs hw hsome =>
    rw [hsome, Option.some.injEq] at hf
    have hpc := hw.oPc
    cases hr : x.pf.cacheReadAddr with
    | true =>
      have h₁ := hw.read hr
      obtain rfl : k = 1 := by omega
      rw [hr, if_pos rfl] at hpc
      exact Or.inl (hf.symm.trans hpc.symm)
    | false =>
      rw [hr, if_neg (by simp)] at hpc
      obtain rfl | rfl : k = 0 ∨ k = 1 := by omega
      · left
        rw [← hf, hpc]
        simp
      · right
        refine ⟨?_, ?_⟩
        · rw [← hf, hpc]
          rfl
        · rw [State.oValid, hr, hw.first, hr]
          rfl

theorem Flow.insn (h : Flow x) (hv : x.pf.oValid = true) : x.pf.oInsn = x.got x.pf.oPc := by
  cases h with
  | void hvoid => simp [State.oValid, hvoid.cacheValid] at hv
  | fetching base k a hr hw => exact hw.insn hv
  | holding base hi hw => exact hw.insn hv
  | broken base k hk hc hs hw => exact hw.insn hv

theorem Asleep.attributed (h : Asleep x) : Attributed x i := by
  constructor
  · intro _ hill
    rw [h.legal] at hill
    cases hill
  · intro _ hv
    rw [State.oValid, h.cacheValid] at hv
    cases hv

/-- In every clock of every run an error is laid to its own word, and the words before it are
handed over as they were got, unless the decoder is misled in that clock. -/
theorem attributed_iff (h : system.Reachable x) (i : Input) (ha : system.allowed x i) :
    Attributed x i ↔ ¬ Misled x i := by
  have hs := sound_of_reachable h
  by_cases hlat : x.latches i = true
  swap
  · exact ⟨fun _ hm => hlat hm.1, fun _ => ⟨fun hl => absurd hl hlat, fun hl => absurd hl hlat⟩⟩
  have hn : i.iNewPc = false := by
    simp only [Front.latches, Bool.and_eq_true, Bool.not_eq_true', Bool.or_eq_false_iff] at hlat
    exact hlat.2.1
  have hflushed : x.flushed = false := by
    cases hf : x.flushed with
    | false => rfl
    | true => rw [Allowed.flushed ha hf] at hn; cases hn
  cases hl : x.live with
  | false =>
    rcases hs.asleep hl with hf | hz
    · rw [hflushed] at hf
      cases hf
    · refine ⟨fun _ hm => ?_, fun _ => hz.attributed⟩
      rcases hm.2 with hst | ⟨hf, -⟩
      · rw [hz.stale] at hst
        cases hst
      · rw [hz.failed] at hf
        cases hf
  | true =>
    have hill := hs.illegal hl
    have hflow := hs.flow hl
    constructor
    · rintro hat ⟨-, hst | ⟨hf, hm⟩⟩
      · have hfail := hat.error hlat (by rw [hill, hst, Bool.true_or])
        rw [hs.fresh hst] at hfail
        cases hfail
      · have hill' : x.pf.oIllegal = true := by rw [hill, hf, Bool.or_true]
        cases hp : x.dcd.rPhase with
        | false =>
          rcases hm with hv | hp'
          · have := (hat.word hlat hv hp).1
            rw [hill'] at this
            cases this
          · rw [hp] at hp'
            cases hp'
        | true =>
          -- the second half of a word that was got before
          have hfail := hat.error hlat hill'
          rw [Front.own, hp, if_pos rfl] at hfail
          have hw := hs.phase hl hp
          rcases hflow.failed_near hfail with he | ⟨he, -⟩
          · rw [hw] at he
            exact add_one_ne _ he.symm
          · rw [hw] at he
            have : (2 : BitVec 23) = 0 := by grind
            exact absurd this (by decide)
    · intro hm
      constructor
      · intro _ hill'
        rw [hill, Bool.or_eq_true] at hill'
        rcases hill' with hst | hf
        · exact absurd ⟨hlat, Or.inl hst⟩ hm
        · have hv : x.pf.oValid = false := by
            cases hv : x.pf.oValid with
            | false => rfl
            | true => exact absurd ⟨hlat, Or.inr ⟨hf, Or.inl hv⟩⟩ hm
          have hp : x.dcd.rPhase = false := by
            cases hp : x.dcd.rPhase with
            | false => rfl
            | true => exact absurd ⟨hlat, Or.inr ⟨hf, Or.inr hp⟩⟩ hm
          obtain ⟨f, hf'⟩ := Option.isSome_iff_exists.1 hf
          rcases hflow.failed_near hf' with he | ⟨-, hv'⟩
          · rw [hf', he, Front.own, hp, if_neg (by simp)]
          · rw [hv] at hv'
            cases hv'
      · intro _ hv hp
        refine ⟨?_, hflow.insn hv⟩
        cases hill' : x.pf.oIllegal with
        | false => rfl
        | true =>
          rw [hill, Bool.or_eq_true] at hill'
          rcases hill' with hst | hf
          · exact absurd ⟨hlat, Or.inl hst⟩ hm
          · exact absurd ⟨hlat, Or.inr ⟨hf, Or.inl hv⟩⟩ hm

def start : Front where
  pf := DblFetch.initial 23 fun _ => 0
  dcd := ⟨false, false, 0, false, IDecode.decode false 0, 0, false⟩
  pending := []
  got _ := 0
  failed := none
  stale := false
  word := 0
  live := false
  flushed := false

/-- A clock of a slave that never stalls. -/
def clock (newPc ack err opStall : Bool) : Input where
  iReset := false
  iNewPc := newPc
  iClearCache := false
  iPc := 9
  iWbAck := ack
  iWbStall := false
  iWbErr := err
  iWbData := 0
  opStall := opStall
  iGie := false

/-- From 9 on: a void cycle, the words at 9 and 10, both taken up, and, the decoder busy, the
word at 11; the one at 12 fails. -/
def upToTwelve : List Input :=
  [clock true false false false, clock false false false false, clock false true false false,
    clock false true false false, clock false false false false, clock false false false false,
    clock false true false false, clock false true false false, clock false false false false,
    clock false false false true, clock false true false true, clock false false true true]

theorem reachable_foldl (is : List Input) (h : system.Admits start is) :
    system.Reachable (is.foldl system.next start) :=
  (System.reachable_init (M := system)
    ⟨⟨_, rfl⟩, ⟨rfl, rfl⟩, rfl, rfl, rfl, rfl, rfl⟩).foldl h

/-- The words at 9, 10 and 11 are taken up, and the fetch of 12 fails. -/
def failedTwelve : List Input :=
  upToTwelve.take 9 ++ [clock false false false false, clock false true false false,
    clock false false true false]

/-- The failure is taken up in the next clock, for 12. -/
theorem attributed_iff_twelve :
    Attributed (failedTwelve.foldl system.next start) (clock false false false false) ∧
      (failedTwelve.foldl system.next start).latches (clock false false false false) = true ∧
      (failedTwelve.foldl system.next start).pf.oIllegal = true ∧
      (failedTwelve.foldl system.next start).failed = some 12 :=
  ⟨(attributed_iff (reachable_foldl _ (by decide +kernel)) _ (by decide +kernel)).2
    (by unfold Misled; decide +kernel), by decide +kernel, by decide +kernel, by decide +kernel⟩

/-- The word at 11 is taken up as illegal, for the one at 12. -/
theorem not_attributed_eleven : ¬ ∀ x, system.Reachable x → ∀ i, system.allowed x i →
    Attributed x i := by
  intro h
  have hf := (h _ (reachable_foldl upToTwelve (by decide +kernel)) (clock false false false false)
    (by decide +kernel)).error (by decide +kernel) (by decide +kernel)
  revert hf
  decide +kernel

end S6Soc.FetchErrors
