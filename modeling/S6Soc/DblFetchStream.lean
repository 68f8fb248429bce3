import S6Soc.Clocked
import S6Soc.DblFetch
import Mathlib.Tactic.IntervalCases

/-! The prefetch against any Wishbone slave, any decoder stall and any sequence of
new program counters: the words handed over are the program's, in order. -/
namespace S6Soc.DblFetch
open Clocked

variable {aw : Nat}

/-- The prefetch, the requests its slave has still to answer (oldest first), and
the words handed to the decoder since `origin` was presented as the new PC. -/
structure Stream (aw : Nat) where
  core : State aw
  pending : List (BitVec aw)
  cleared : Bool
  origin : Option (BitVec aw)
  handed : List (BitVec aw × BitVec 32)

def accepted (s : State aw) (i : Input aw) : List (BitVec aw) :=
  if s.oWbCyc && s.oWbStb && !i.iWbStall then [s.oWbAddr] else []

/-- Requests the slave may answer in this clock, an accepted one included. -/
def Stream.queue (x : Stream aw) (i : Input aw) : List (BitVec aw) :=
  x.pending ++ accepted x.core i

/-- No bus errors, acknowledgements answer the oldest request, and a cleared cache
is followed by a new PC one clock later. -/
structure Allowed (mem : BitVec aw → BitVec 32) (x : Stream aw) (i : Input aw) : Prop where
  noErr : i.iWbErr = false
  answers : acked x.core i = true →
    ∃ a ∈ (x.queue i).head?, i.iWbData = mem a
  clearThenNew : x.cleared = true → i.iNewPc = true

instance (mem : BitVec aw → BitVec 32) (x : Stream aw) (i : Input aw) :
    Decidable (Allowed mem x i) :=
  decidable_of_iff (i.iWbErr = false ∧
    (acked x.core i = true → ∃ a ∈ (x.queue i).head?, i.iWbData = mem a) ∧
    (x.cleared = true → i.iNewPc = true))
    ⟨fun ⟨h₁, h₂, h₃⟩ => ⟨h₁, h₂, h₃⟩, fun ⟨h₁, h₂, h₃⟩ => ⟨h₁, h₂, h₃⟩⟩

def Stream.next (x : Stream aw) (i : Input aw) : Stream aw where
  core := step x.core i
  pending :=
    if !x.core.oWbCyc then []
    else if i.iWbAck then (x.queue i).tail
    else x.queue i
  cleared := i.iClearCache
  origin :=
    if i.iReset || i.iClearCache then none
    else if i.iNewPc then some i.iPc
    else x.origin
  handed :=
    if i.iReset || i.iClearCache || i.iNewPc then []
    else if taken x.core i then x.handed ++ [(x.core.oPc, x.core.oInsn)]
    else x.handed

def system (mem : BitVec aw → BitVec 32) : System (Stream aw) (Input aw) where
  init x := ∃ cache, x = ⟨initial aw cache, [], false, none, []⟩
  allowed := Allowed mem
  next := Stream.next

instance (mem : BitVec aw → BitVec 32) (x : Stream aw) (i : Input aw) :
    Decidable ((system mem).allowed x i) :=
  inferInstanceAs (Decidable (Allowed mem x i))

/-- `(P, mem[P]), (P+1, mem[P+1]), …`, `n` words of it. -/
def program (mem : BitVec aw → BitVec 32) (P : BitVec aw) (n : Nat) :
    List (BitVec aw × BitVec 32) :=
  (List.range n).map fun k => (P + BitVec.ofNat aw k, mem (P + BitVec.ofNat aw k))

theorem program_succ (mem : BitVec aw → BitVec 32) (P : BitVec aw) (n : Nat) :
    program mem P (n + 1) =
      program mem P n ++ [(P + BitVec.ofNat aw n, mem (P + BitVec.ofNat aw n))] := by
  simp [program, List.range_succ]

/-- Nothing of the new stream has been fetched: the bus cycle under way, if any, is void. -/
structure Void (s : State aw) (pc : BitVec aw) : Prop where
  invalid : s.invalidBusCycle = true
  cacheValid : s.cacheValid = fun _ => false
  readAddr : s.cacheReadAddr = false
  oPc : s.oPc = pc
  addr : s.oWbAddr = pc

/-- The addresses of a pair that are accepted (`a` of them) but not answered (`k` are). -/
def window (base : BitVec aw) : Nat → Nat → List (BitVec aw)
  | 0, 1 => [base]
  | 0, 2 => [base, base + 1]
  | 1, 2 => [base + 1]
  | _, _ => []

/-- The bus side of the pair at `base`: `a` requests accepted, `k` answered. -/
structure Requests (s : State aw) (pending : List (BitVec aw)) (base : BitVec aw)
    (k a : Nat) : Prop where
  order : k ≤ a ∧ a ≤ 2 ∧ k ≤ 1
  cyc : s.oWbCyc = true
  stb : s.oWbStb = decide (a < 2)
  lastStb : a < 2 → s.lastStb = decide (a = 1)
  lastAck : s.lastAck = decide (k = 1)
  writeAddr : s.cacheWriteAddr = decide (k = 1)
  addr : s.oWbAddr = base + BitVec.ofNat aw a
  pending : pending = window base k a

/-- Both words have arrived; the bus is idle until the second is taken. -/
structure Idle (s : State aw) (base : BitVec aw) : Prop where
  cyc : s.oWbCyc = false
  stb : s.oWbStb = false
  addr : s.oWbAddr = base + 2

/-- The decoder side of the pair at `base` of which `k` words have arrived. -/
structure Words (mem : BitVec aw → BitVec 32) (s : State aw) (base : BitVec aw)
    (k : Nat) : Prop where
  current : s.invalidBusCycle = false
  read : s.cacheReadAddr = true → 1 ≤ k
  first : s.cacheValid false = (decide (1 ≤ k) && !s.cacheReadAddr)
  second : s.cacheValid true = decide (k = 2)
  oPc : s.oPc = if s.cacheReadAddr then base + 1 else base
  insn : s.oValid = true → s.oInsn = mem s.oPc
  cached : k = 2 → s.cacheReadAddr = false → s.cache true = mem (base + 1)

/-- A live stream has nothing yet, is fetching a pair or holds a fetched pair. -/
inductive Live (mem : BitVec aw → BitVec 32) (s : State aw) (pending : List (BitVec aw)) : Prop
  | void : Void s s.oPc → Live mem s pending
  | fetching (base k a) : Requests s pending base k a → Words mem s base k → Live mem s pending
  | holding (base) : Idle s base → Words mem s base 2 → Live mem s pending

structure Invariant (mem : BitVec aw → BitVec 32) (x : Stream aw) : Prop where
  stbCyc : x.core.oWbStb = true → x.core.oWbCyc = true
  cleared : x.cleared = true → x.origin = none
  oPc : ∀ P ∈ x.origin, x.core.oPc = P + BitVec.ofNat aw x.handed.length
  handed : ∀ P ∈ x.origin, x.handed = program mem P x.handed.length
  live : x.origin.isSome = true → Live mem x.core x.pending

variable {mem : BitVec aw → BitVec 32} {s : State aw} {i : Input aw}
  {pending : List (BitVec aw)} {pc base : BitVec aw} {k a : Nat}

theorem one_add_one : BitVec.ofNat aw 1 + BitVec.ofNat aw 1 = BitVec.ofNat aw 2 := by
  rw [← BitVec.ofNat_add]

/-- A clock without reset, bus error, new PC or cache clear. -/
structure Quiet (i : Input aw) : Prop where
  reset : i.iReset = false
  newPc : i.iNewPc = false
  clear : i.iClearCache = false
  err : i.iWbErr = false

theorem nextStb_cyc (h : s.oWbStb = true → s.oWbCyc = true) :
    nextStb s i = true → nextCyc s i = true := by
  unfold nextStb nextCyc
  grind

theorem void_of_newPc (hr : i.iReset = false) (hn : i.iNewPc = true) :
    Void (step s i) i.iPc := by
  constructor <;> simp [step, hr, hn]

theorem Void.not_taken (h : Void s pc) : taken s i = false := by
  simp [taken, State.oValid, h.cacheValid]

theorem Void.busy (h : Void s pc) (hq : Quiet i) (hc : s.oWbCyc = true) :
    Void (step s i) pc := by
  have ht := h.not_taken (i := i)
  constructor <;>
    simp [step, ht, hc, hq.reset, hq.newPc, hq.clear, h.invalid, h.oPc, h.addr, h.readAddr]

/-- Once the void cycle is off the bus, the first request of the stream goes out. -/
theorem Void.restart (h : Void s pc) (hq : Quiet i) (hc : s.oWbCyc = false)
    (hs : s.oWbStb = false) :
    Requests (step s i) [] pc 0 0 ∧ Words mem (step s i) pc 0 := by
  have ht := h.not_taken (i := i)
  constructor <;> constructor <;>
    simp [step, nextCyc, nextStb, window, State.oValid, ht, hc, hs, hq.reset, hq.newPc,
      hq.clear, h.invalid, h.oPc, h.addr, h.readAddr]

def bump (b : Bool) (n : Nat) : Nat := if b then n + 1 else n

/-- An acknowledgement answers the first word of the pair that is still awaited. -/
theorem Requests.answer (h : Requests s pending base k a)
    (hw : ∃ r ∈ (pending ++ accepted s i).head?, i.iWbData = mem r) :
    k < bump (s.oWbStb && !i.iWbStall) a ∧ i.iWbData = mem (base + BitVec.ofNat aw k) := by
  obtain ⟨⟨h₁, h₂, h₃⟩, hcyc, hstb, -, -, -, haddr, hp⟩ := h
  interval_cases a <;> interval_cases k <;> simp [window] at hp hstb haddr <;>
    cases hst : i.iWbStall <;>
    simp_all [accepted, bump]

theorem Requests.step (h : Requests s pending base k a) (hq : Quiet i)
    (hv : s.invalidBusCycle = false)
    (hw : i.iWbAck = true → k < bump (s.oWbStb && !i.iWbStall) a)
    (hk : bump i.iWbAck k ≤ 1) :
    Requests (DblFetch.step s i)
      (if i.iWbAck then (pending ++ accepted s i).tail else pending ++ accepted s i)
      base (bump i.iWbAck k) (bump (s.oWbStb && !i.iWbStall) a) := by
  obtain ⟨⟨h₁, h₂, h₃⟩, hcyc, hstb, hls, hla, hwa, haddr, hp⟩ := h
  obtain ⟨q₁, q₂, q₃, q₄⟩ := hq
  interval_cases a <;> interval_cases k <;> simp [window] at hstb hls hla hwa hp haddr <;>
    cases hack : i.iWbAck <;> cases hst : i.iWbStall <;>
    simp [bump, hstb, hack, hst] at hw hk <;>
    constructor <;>
    simp [DblFetch.step, nextCyc, nextStb, window, BitVec.add_assoc, one_add_one, bump,
      accepted, hcyc, hv, hstb, hls, hla, hwa, haddr, hp, q₁, q₂, q₃, q₄, hack, hst]

/-- The second acknowledgement ends the bus cycle. -/
theorem Requests.finish (h : Requests s pending base 1 a) (hq : Quiet i)
    (hv : s.invalidBusCycle = false) (hack : i.iWbAck = true)
    (hw : 1 < bump (s.oWbStb && !i.iWbStall) a) : Idle (DblFetch.step s i) base := by
  obtain ⟨⟨h₁, h₂, -⟩, hcyc, hstb, hls, hla, -, haddr, -⟩ := h
  obtain ⟨q₁, q₂, q₃, q₄⟩ := hq
  interval_cases a <;> cases hst : i.iWbStall <;>
    simp [bump, hst] at hstb hls hla haddr hw <;>
    constructor <;>
    simp [DblFetch.step, nextCyc, nextStb, BitVec.add_assoc, one_add_one, hcyc, hv, hstb, hla,
      haddr, q₁, q₂, q₃, q₄, hack, hst]

theorem Idle.stay (h : Idle s base) (hq : Quiet i) (hv : s.invalidBusCycle = false)
    (ht : (taken s i && s.cacheReadAddr) = false) : Idle (DblFetch.step s i) base := by
  constructor <;>
    simp [DblFetch.step, nextCyc, nextStb, h.cyc, h.stb, h.addr, hq.reset, hq.newPc, hq.clear, hv,
      ht]

/-- Taking the second word sends out the request for the next pair. -/
theorem Idle.restart (h : Idle s base) (hq : Quiet i)
    (ht : (taken s i && s.cacheReadAddr) = true) :
    Requests (DblFetch.step s i) [] (base + 2) 0 0 := by
  constructor <;>
    simp [DblFetch.step, nextCyc, nextStb, window, h.cyc, h.stb, h.addr, hq.reset, hq.newPc, ht]

theorem Words.taken_second (h : Words mem s base k) (ht : (taken s i && s.cacheReadAddr) = true) :
    k = 2 := by
  simp only [taken, State.oValid, Bool.and_eq_true] at ht
  simpa [ht.2, h.second] using ht.1.1

/-- The word the decoder takes is the program's word at `oPc`. -/
theorem Words.taken_insn (h : Words mem s base k) (ht : taken s i = true) :
    s.oInsn = mem s.oPc :=
  h.insn (by simp only [taken, Bool.and_eq_true] at ht; exact ht.1)

theorem Words.step (h : Words mem s base k) (hq : Quiet i) (h₂ : k ≤ 2)
    (hw : acked s i = true → k ≤ 1 ∧ s.cacheWriteAddr = decide (k = 1) ∧
      i.iWbData = mem (base + BitVec.ofNat aw k))
    (ht : (taken s i && s.cacheReadAddr) = false) :
    Words mem (DblFetch.step s i) base (bump (acked s i) k) := by
  obtain ⟨hv, hrd, hf, hs, hpc, hin, hca⟩ := h
  obtain ⟨q₁, q₂, q₃, q₄⟩ := hq
  interval_cases k <;> cases hr : s.cacheReadAddr <;> cases hack : acked s i <;>
    cases hn : i.iStallN <;>
    simp_all [taken, State.oValid] <;>
    constructor <;>
    simp_all [DblFetch.step, bump, taken, State.oValid]

theorem Words.restart (h : Words mem s base 2) (hq : Quiet i) (hc : s.oWbCyc = false)
    (ht : (taken s i && s.cacheReadAddr) = true) :
    Words mem (DblFetch.step s i) (base + 2) 0 := by
  obtain ⟨hv, hrd, hf, hs, hpc, hin, hca⟩ := h
  obtain ⟨q₁, q₂, q₃, q₄⟩ := hq
  simp only [Bool.and_eq_true] at ht
  constructor <;>
    simp_all [DblFetch.step, acked, State.oValid, BitVec.add_assoc, one_add_one]

theorem Live.step (h : Live mem s pending) (hq : Quiet i)
    (hs : s.oWbStb = true → s.oWbCyc = true)
    (hw : acked s i = true → ∃ r ∈ (pending ++ accepted s i).head?, i.iWbData = mem r) :
    Live mem (DblFetch.step s i) (if !s.oWbCyc then []
      else if i.iWbAck then (pending ++ accepted s i).tail else pending ++ accepted s i) := by
  cases h with
  | void h =>
    cases hc : s.oWbCyc with
    | true =>
      have hb := h.busy hq hc
      exact .void (by simpa [hb.oPc] using hb)
    | false =>
      obtain ⟨hr, hwd⟩ : Requests (DblFetch.step s i) [] _ 0 0 ∧
          Words mem (DblFetch.step s i) _ 0 :=
        h.restart hq hc (by simpa [hc] using hs)
      simpa [hc] using Live.fetching _ _ _ hr hwd
  | fetching base k a hr hwd =>
    obtain ⟨hka, ha, hk⟩ := hr.order
    have hans : i.iWbAck = true → k < bump (s.oWbStb && !i.iWbStall) a ∧
        i.iWbData = mem (base + BitVec.ofNat aw k) :=
      fun hack => hr.answer (hw (by simp [acked, hr.cyc, hack]))
    have ht : (taken s i && s.cacheReadAddr) = false := by
      by_contra ht
      have := hwd.taken_second (by simpa using ht)
      omega
    have hacked : acked s i = i.iWbAck := by simp [acked, hr.cyc]
    have hwords := hwd.step hq (by omega) (fun hack =>
      ⟨hk, hr.writeAddr, (hans (by rwa [hacked] at hack)).2⟩) ht
    rw [hacked] at hwords
    simp only [hr.cyc, Bool.not_true, Bool.false_eq_true, ↓reduceIte]
    by_cases hk' : bump i.iWbAck k ≤ 1
    · exact .fetching _ _ _ (hr.step hq hwd.current (fun hack => (hans hack).1) hk') hwords
    · have hack : i.iWbAck = true := by
        by_contra hn
        simp [bump, hn] at hk'
        omega
      obtain rfl : k = 1 := by simp [bump, hack] at hk'; omega
      refine .holding base (hr.finish hq hwd.current hack (hans hack).1) ?_
      simpa [bump, hack] using hwords
  | holding base hi hwd =>
    simp only [hi.cyc, Bool.not_false, ↓reduceIte]
    have hacked : acked s i = false := by simp [acked, hi.cyc]
    cases ht : taken s i && s.cacheReadAddr with
    | true => exact .fetching _ _ _ (hi.restart hq ht) (hwd.restart hq hi.cyc ht)
    | false =>
      have hwords := hwd.step hq le_rfl (by simp [hacked]) ht
      rw [hacked] at hwords
      exact .holding _ (hi.stay hq hwd.current ht) hwords

theorem Live.taken_insn (h : Live mem s pending) (ht : taken s i = true) :
    s.oInsn = mem s.oPc := by
  cases h with
  | void h => simp [h.not_taken] at ht
  | fetching _ _ _ _ hw | holding _ _ hw => exact hw.taken_insn ht

theorem step_oPc (hq : Quiet i) :
    (step s i).oPc = if taken s i then s.oPc + 1 else s.oPc := by
  simp [step, hq.newPc]

theorem invariant_init {x : Stream aw} (h : (system mem).init x) : Invariant mem x := by
  obtain ⟨cache, rfl⟩ := h
  constructor <;> simp [initial]

theorem invariant_next {x : Stream aw} (h : Invariant mem x) (ha : Allowed mem x i) :
    Invariant mem (x.next i) := by
  have hstb := nextStb_cyc (i := i) h.stbCyc
  by_cases hq : i.iReset = false ∧ i.iClearCache = false
  swap
  · -- a reset or a clear ends the stream
    have ho : (x.next i).origin = none := by
      simp only [Stream.next]
      grind
    exact ⟨hstb, fun _ => ho, by simp [ho], by simp [ho], by simp [ho]⟩
  obtain ⟨hr, hc⟩ := hq
  cases hn : i.iNewPc with
  | true =>
    have hv := void_of_newPc (s := x.core) hr hn
    refine ⟨hstb, by simp [Stream.next, hc], ?_, ?_, fun _ => .void ?_⟩
    · simp [Stream.next, hr, hc, hn, hv.oPc]
    · simp [Stream.next, hr, hc, hn, program]
    · simpa [Stream.next, hv.oPc] using hv
  | false =>
    have hq : Quiet i := ⟨hr, hn, hc, ha.noErr⟩
    have ho : (x.next i).origin = x.origin := by simp [Stream.next, hr, hc, hn]
    have hh : (x.next i).handed = if taken x.core i then
        x.handed ++ [(x.core.oPc, x.core.oInsn)] else x.handed := by
      simp [Stream.next, hr, hc, hn]
    refine ⟨hstb, by simp [Stream.next, hc], ?_, ?_, ?_⟩
    · intro P hP
      rw [ho] at hP
      rw [show (x.next i).core = step x.core i from rfl, step_oPc hq, hh, h.oPc P hP]
      cases taken x.core i <;> simp [BitVec.add_assoc, ← BitVec.ofNat_add]
    · intro P hP
      rw [ho] at hP
      rw [hh]
      cases ht : taken x.core i with
      | false => simpa using h.handed P hP
      | true =>
        have hin := (h.live (by simp [Option.mem_def.mp hP])).taken_insn ht
        simp only [↓reduceIte, List.length_append, List.length_singleton, program_succ]
        rw [← h.handed P hP, hin, h.oPc P hP]
    · intro hs
      rw [ho] at hs
      exact (h.live hs).step hq h.stbCyc ha.answers

/-- After a new PC `P`, the words handed to the decoder until the next clear or new
PC are `(P, mem[P])`, `(P+1, mem[P+1])`, and so on. -/
theorem handed_eq_program {x : Stream aw} (h : (system mem).Reachable x) {P : BitVec aw}
    (hP : x.origin = some P) : x.handed = program mem P x.handed.length :=
  (h.invariant (fun _ => invariant_init) (fun _ _ => invariant_next)).handed P hP

/-- A clock of a slave that never stalls and a decoder that always takes. -/
def clock (newPc : Option (BitVec 4)) (answer : Option (BitVec 4)) : Input 4 where
  iReset := false
  iNewPc := newPc.isSome
  iClearCache := false
  iStallN := true
  iPc := newPc.getD 0
  iWbAck := answer.isSome
  iWbStall := false
  iWbErr := false
  iWbData := (answer.getD 0).setWidth 32

/-- PC 9 is presented with the bus idle: the first, void cycle fetches it twice. -/
def startAtNine : List (Input 4) :=
  [clock (some 9) none, clock none none, clock none (some 9), clock none (some 9),
    clock none none, clock none none, clock none (some 9), clock none (some 10), clock none none]

theorem handed_eq_program_nine :
    (startAtNine.foldl Stream.next ⟨initial 4 fun _ => 0, [], false, none, []⟩).handed =
      program (fun a => a.setWidth 32) 9 2 :=
  handed_eq_program
    (System.Reachable.foldl (M := system fun a => a.setWidth 32)
      (System.reachable_init ⟨_, rfl⟩) (by decide)) rfl

end S6Soc.DblFetch
