import Mathlib
import S6Soc.PipeWakeups

/-! A pipe that the audio interrupt drains by two bytes at a time, under a task that writes. -/
namespace S6Soc.ZipOS
open Clocked

/-- The two bytes of a sample. -/
abbrev Sample := BitVec 8 × BitVec 8

def bytesOf (samples : List Sample) : List (BitVec 8) := samples.flatMap fun v => [v.1, v.2]

/-- Where the writing task is in `uwrite_syspipe`: outside, at the start of a pass, with
`navail` computed, in `memcpy` with `k` of `ln` bytes copied, or past the head's update. -/
inductive Copy
  | out
  | start
  | sampled (navail : Nat)
  | copying (navail ln k : Nat)
  | tests (navail : Nat)
  deriving DecidableEq

/-- `written` are the samples of the writes accepted so far, `popped` what the interrupts got. -/
structure Audio (τ : Type) where
  pipe : SysPipe τ
  place : Copy
  src : List (BitVec 8)
  asleep : Bool
  written : List Sample
  popped : List Sample

/-- A write trap, the next step of the writing task, or `kpop_short_syspipe`. -/
inductive Audio.Event (τ : Type)
  | write (t : τ) (samples : List Sample)
  | run
  | pop
  deriving DecidableEq

variable {τ : Type}

def Audio.write (x : Audio τ) (t : τ) (samples : List Sample) : Audio τ :=
  let r := kwriteSyspipe x.pipe t (bytesOf samples).length true
  match r.refused with
  | some _ => { x with pipe := r.pipe }
  | none =>
    { x with
      pipe := r.pipe
      place := .start
      src := bytesOf samples
      asleep := r.blocks
      written := x.written ++ samples }

/-- `m_rdtask` is `INTERRUPT_READ_TASK` throughout. -/
def Audio.run (x : Audio τ) : Audio τ :=
  match x.place with
  | .out => x
  | .start => { x with place := .sampled (numAvailSyspipe x.pipe) }
  | .sampled navail =>
    if x.src.length ≤ navail ∨ 0 < navail then
      let ln := min (min (x.pipe.mMask + 1 - x.pipe.mHead) x.src.length) navail
      { x with place := .copying navail ln 0 }
    else { x with place := .tests navail }
  | .copying navail ln k =>
    if k < ln then
      { x with
        pipe := { x.pipe with
          mBuf := Function.update x.pipe.mBuf (x.pipe.mHead + k) (x.src.getD k 0) }
        place := .copying navail ln (k + 1) }
    else
      { x with
        pipe := { x.pipe with
          mHead := (x.pipe.mHead + ln) &&& x.pipe.mMask
          mNwritten := x.pipe.mNwritten + ln }
        src := x.src.drop ln
        place := .tests (navail - ln) }
  | .tests navail =>
    if x.src = [] then { x with pipe := { x.pipe with mWrtask := none }, place := .out }
    else if navail = 0 then { x with place := .start, asleep := numAvailSyspipe x.pipe = 0 }
    else { x with place := .start }

def Audio.pop (x : Audio τ) : Audio τ :=
  { x with
    pipe := (kpopSyspipe x.pipe 2).1
    asleep := if (kpopSyspipe x.pipe 2).2.isSome then false else x.asleep
    popped := x.popped ++
      if x.pipe.mHead = x.pipe.mTail then []
      else [(x.pipe.mBuf x.pipe.mTail, x.pipe.mBuf (x.pipe.mTail + 1))] }

def Audio.next (x : Audio τ) : Audio.Event τ → Audio τ
  | .write t samples => x.write t samples
  | .run => x.run
  | .pop => x.pop

def Audio.Enabled (x : Audio τ) : Audio.Event τ → Prop
  | .run => x.place ≠ .out ∧ x.asleep = false
  | .write .. | .pop => True

instance Audio.decidableEnabled (x : Audio τ) : (e : Audio.Event τ) → Decidable (x.Enabled e)
  | .run => inferInstanceAs (Decidable (_ ∧ _))
  | .write .. | .pop => .isTrue trivial

/-- As `new_syspipe` makes it, marked for the interrupt. -/
structure Audio.Init (x : Audio τ) : Prop where
  mask : ∃ k, 4 ≤ k ∧ x.pipe.mMask = 2 ^ k - 1
  head : x.pipe.mHead = 0
  tail : x.pipe.mTail = 0
  rdtask : x.pipe.mRdtask = .interrupt
  wrtask : x.pipe.mWrtask = none
  place : x.place = .out
  src : x.src = []
  written : x.written = []
  popped : x.popped = []

def audio : System (Audio τ) (Audio.Event τ) where
  init := Audio.Init
  allowed := Audio.Enabled
  next := Audio.next

/-- The bytes between tail and head. -/
def SysPipe.held (p : SysPipe τ) : List (BitVec 8) :=
  Ring.contents (p.mMask + 1) p.mBuf p.mTail p.mHead

/-- No sample is popped while the ring holds a single byte. -/
def Audio.Whole (x : Audio τ) : Audio.Event τ → Prop
  | .pop => x.pipe.held.length ≠ 1
  | .write .. | .run => True

instance Audio.decidableWhole (x : Audio τ) : (e : Audio.Event τ) → Decidable (x.Whole e)
  | .pop => inferInstanceAs (Decidable (_ ≠ _))
  | .write .. | .run => .isTrue trivial

instance (x : Audio τ) (e : Audio.Event τ) : Decidable (audio.allowed x e) :=
  inferInstanceAs (Decidable (x.Enabled e))

instance (x : Audio τ) (e : Audio.Event τ) :
    Decidable ((audio.restrict Audio.Whole).allowed x e) :=
  inferInstanceAs (Decidable (x.Enabled e ∧ x.Whole e))

variable {x : Audio τ} {p : SysPipe τ} {navail ln k : Nat}

theorem bytesOf_append {u v : List Sample} : bytesOf (u ++ v) = bytesOf u ++ bytesOf v :=
  List.flatMap_append

theorem isPrefix_of_bytesOf {u v : List Sample} {rest : List (BitVec 8)}
    (h : bytesOf u ++ rest = bytesOf v) : u <+: v := by
  induction u generalizing v with
  | nil => exact List.nil_prefix
  | cons a u ih =>
    cases v with
    | nil => simp [bytesOf] at h
    | cons b v =>
      simp only [bytesOf, List.flatMap_cons, List.cons_append, List.nil_append,
        List.cons.injEq] at h
      obtain ⟨h1, h2, hrest⟩ := h
      obtain rfl : a = b := Prod.ext h1 h2
      exact (List.prefix_cons_inj a).mpr (ih hrest)

theorem SysPipe.Placed.numAvail_eq (hp : p.Placed) :
    numAvailSyspipe p = p.mMask - p.held.length := by
  rw [numAvailSyspipe, hp.and_mask, SysPipe.held, Ring.length_contents,
    Ring.room_eq hp.tail hp.head]

theorem SysPipe.held_lt : p.held.length < p.mMask + 1 := by
  rw [SysPipe.held, Ring.length_contents]
  exact Ring.count_lt (by omega)

theorem SysPipe.Placed.held_eq_nil (hp : p.Placed) : p.held = [] ↔ p.mHead = p.mTail := by
  have := hp.head
  have := hp.tail
  exact Ring.contents_eq_nil_iff (by omega) (by omega)

/-- What the writing task knows about the ring and its own buffer. -/
def Audio.Knows (x : Audio τ) : Copy → Prop
  | .sampled navail => x.pipe.held.length + navail ≤ x.pipe.mMask
  | .copying navail ln k => x.pipe.held.length + navail ≤ x.pipe.mMask ∧ ln ≤ navail ∧
      ln ≤ x.src.length ∧ x.pipe.mHead + ln ≤ x.pipe.mMask + 1 ∧ k ≤ ln ∧
      ∀ j < k, x.pipe.mBuf (x.pipe.mHead + j) = x.src.getD j 0
  | .out => x.src = []
  | .start | .tests _ => True

/-- The bytes popped, those in the ring and those still to be written are all that was
written, in order. -/
structure Audio.Fed (x : Audio τ) : Prop where
  placed : x.pipe.Placed
  odd : x.pipe.mMask % 2 = 1
  even : x.pipe.mTail % 2 = 0
  rdtask : x.pipe.mRdtask = .interrupt
  wrtask : x.pipe.mWrtask = none → x.place = .out
  order : bytesOf x.popped ++ x.pipe.held ++ x.src = bytesOf x.written
  knows : x.Knows x.place

theorem Audio.Fed.init (h : x.Init) : x.Fed := by
  obtain ⟨k, hk, hm⟩ := h.mask
  refine ⟨⟨⟨k, hm⟩, by simp [h.head], by simp [h.tail]⟩, ?_, by simp [h.tail], h.rdtask,
    fun _ => h.place, ?_, ?_⟩
  · obtain ⟨j, rfl⟩ : ∃ j, k = j + 1 := ⟨k - 1, by omega⟩
    have : 0 < 2 ^ j := Nat.two_pow_pos j
    rw [hm, pow_succ]
    omega
  · have hheld : x.pipe.held = [] := by
      rw [SysPipe.held, h.head, h.tail]
      exact (Ring.contents_eq_nil_iff (by omega) (by omega)).mpr rfl
    simp [h.popped, h.written, h.src, hheld, bytesOf]
  · rw [h.place]
    exact h.src

theorem Audio.Fed.write (h : x.Fed) {t : τ} {samples : List Sample} :
    (x.write t samples).Fed := by
  unfold Audio.write
  cases hw : x.pipe.mWrtask with
  | some u =>
    simp only [kwriteSyspipe, hw, refuse]
    exact h
  | none =>
    have hout := h.wrtask hw
    have hsrc : x.src = [] := by
      have := h.knows
      rwa [hout] at this
    simp only [kwriteSyspipe, hw, h.rdtask]
    by_cases hl : ((bytesOf samples).length : Int) ≤ 0
    · simp only [if_pos hl, refuse]
      exact h
    · simp only [if_neg hl, Bool.not_true, Bool.false_eq_true, if_false]
      refine ⟨⟨h.placed.mask, h.placed.head, h.placed.tail⟩, h.odd, h.even, rfl,
        fun hn => (by cases hn), ?_, trivial⟩
      have ho := h.order
      rw [hsrc, List.append_nil] at ho
      dsimp only
      rw [bytesOf_append, ← ho]
      rfl

/-- A byte goes into a free cell. -/
theorem Audio.Fed.copy (h : x.Fed) (hp : x.place = .copying navail ln k) (hk : k < ln) :
    Audio.Fed { x with
      pipe := { x.pipe with
        mBuf := Function.update x.pipe.mBuf (x.pipe.mHead + k) (x.src.getD k 0) }
      place := .copying navail ln (k + 1) } := by
  obtain ⟨hroom, hn, hs, hend, -, hdone⟩ : x.Knows (.copying navail ln k) := hp ▸ h.knows
  have hh := h.placed.head
  have ht := h.placed.tail
  have hheld : Ring.contents (x.pipe.mMask + 1)
      (Function.update x.pipe.mBuf (x.pipe.mHead + k) (x.src.getD k 0)) x.pipe.mTail
      x.pipe.mHead = x.pipe.held := by
    refine Ring.contents_update (n := ln) (by omega) (by omega) hk ?_
    have hcount : x.pipe.held.length = Ring.count (x.pipe.mMask + 1) x.pipe.mTail x.pipe.mHead :=
      Ring.length_contents
    rw [← hcount]
    exact Nat.lt_succ_of_le (Nat.le_trans (Nat.add_le_add_left hn _) hroom)
  refine ⟨⟨h.placed.mask, hh, ht⟩, h.odd, h.even, h.rdtask,
    fun hw => absurd (hp.symm.trans (h.wrtask hw)) (by simp), ?_,
    ?_, hn, hs, hend, hk, fun j hj => ?_⟩
  · rw [SysPipe.held, hheld]
    exact h.order
  · rw [SysPipe.held, hheld]
    exact hroom
  · rcases Nat.lt_succ_iff_lt_or_eq.mp hj with hj | rfl
    · dsimp only
      rw [Function.update_of_ne (by omega)]
      exact hdone j hj
    · simp

/-- The bytes copied become the ring's. -/
theorem Audio.Fed.commit (h : x.Fed) (hp : x.place = .copying navail ln k) (hk : ¬ k < ln) :
    Audio.Fed { x with
      pipe := { x.pipe with
        mHead := (x.pipe.mHead + ln) &&& x.pipe.mMask
        mNwritten := x.pipe.mNwritten + ln }
      src := x.src.drop ln
      place := .tests (navail - ln) } := by
  obtain ⟨hroom, hn, hs, hend, hkl, hdone⟩ : x.Knows (.copying navail ln k) := hp ▸ h.knows
  obtain rfl : k = ln := by omega
  have hh := h.placed.head
  have ht := h.placed.tail
  have hlen : (x.src.take k).length = k := by simp [hs]
  have hstore : Ring.store x.pipe.mBuf x.pipe.mHead (x.src.take k) = x.pipe.mBuf := by
    refine Ring.store_eq_self fun j hj => ?_
    rw [hlen] at hj
    rw [hdone j hj, List.getElem_take, List.getD_eq_getElem _ _ (by omega)]
  have hpush : Ring.contents (x.pipe.mMask + 1) x.pipe.mBuf x.pipe.mTail
      ((x.pipe.mHead + k) % (x.pipe.mMask + 1)) = x.pipe.held ++ x.src.take k := by
    have hcount : x.pipe.held.length = Ring.count (x.pipe.mMask + 1) x.pipe.mTail x.pipe.mHead :=
      Ring.length_contents
    have : Ring.contents _ (Ring.store x.pipe.mBuf x.pipe.mHead (x.src.take k)) x.pipe.mTail _ =
        x.pipe.held ++ x.src.take k := Ring.contents_push (by omega) (by omega)
      (by rw [hlen, ← hcount]; exact Nat.lt_succ_of_le (by
        exact Nat.le_trans (Nat.add_le_add_left hn _) hroom)) (by omega)
    rwa [hlen, hstore] at this
  refine ⟨⟨h.placed.mask, Nat.and_le_right, ht⟩, h.odd, h.even, h.rdtask,
    fun hw => absurd (hp.symm.trans (h.wrtask hw)) (by simp), ?_, trivial⟩
  dsimp only
  rw [SysPipe.held, h.placed.and_mask, hpush, List.append_assoc, List.append_assoc,
    List.take_append_drop, ← List.append_assoc]
  exact h.order

theorem Audio.Fed.run (h : x.Fed) : x.run.Fed := by
  have hk := h.knows
  have hw : x.place ≠ .out → x.pipe.mWrtask ≠ none := fun hp hn => hp (h.wrtask hn)
  unfold Audio.run
  split
  · exact h
  next hp =>
    refine ⟨h.placed, h.odd, h.even, h.rdtask, fun hn => absurd hn (hw (by simp [hp])), h.order, ?_⟩
    have := x.pipe.held_lt
    change x.pipe.held.length + numAvailSyspipe x.pipe ≤ x.pipe.mMask
    rw [h.placed.numAvail_eq]
    omega
  next navail hp =>
    rw [hp] at hk
    have hh := h.placed.head
    split_ifs with hn
    · refine ⟨h.placed, h.odd, h.even, h.rdtask, fun hn => absurd hn (hw (by simp [hp])), h.order,
        hk, Nat.min_le_right _ _, (Nat.min_le_left _ _).trans (Nat.min_le_right _ _), ?_,
        Nat.zero_le _, fun j hj => absurd hj (Nat.not_lt_zero j)⟩
      dsimp only
      omega
    · exact ⟨h.placed, h.odd, h.even, h.rdtask, fun hn => absurd hn (hw (by simp [hp])), h.order,
        trivial⟩
  next navail ln k hp =>
    split_ifs with hl
    · exact h.copy hp hl
    · exact h.commit hp hl
  next navail hp =>
    split_ifs with hs
    · exact ⟨⟨h.placed.mask, h.placed.head, h.placed.tail⟩, h.odd, h.even, h.rdtask, fun _ => rfl,
        h.order, hs⟩
    · exact ⟨h.placed, h.odd, h.even, h.rdtask, fun hn => absurd hn (hw (by simp [hp])), h.order,
        trivial⟩
    · exact ⟨h.placed, h.odd, h.even, h.rdtask, fun hn => absurd hn (hw (by simp [hp])), h.order,
        trivial⟩

/-- Two bytes are in the ring when there are any, and they do not wrap around. -/
theorem Audio.Fed.two (h : x.Fed) (hw : x.pipe.held.length ≠ 1)
    (hne : x.pipe.mHead ≠ x.pipe.mTail) :
    2 ≤ x.pipe.held.length ∧ x.pipe.mTail + 2 ≤ x.pipe.mMask + 1 := by
  have hpos : x.pipe.held.length ≠ 0 := fun h0 =>
    hne (h.placed.held_eq_nil.mp (List.length_eq_zero_iff.mp h0))
  have := h.placed.tail
  have := h.even
  have := h.odd
  omega

theorem Audio.Fed.pop (h : x.Fed) (hw : x.pipe.held.length ≠ 1) : x.pop.Fed := by
  have hh := h.placed.head
  have ht := h.placed.tail
  by_cases hne : x.pipe.mHead = x.pipe.mTail
  · have hx : x.pop = x := by
      simp [Audio.pop, kpopSyspipe, hne]
    rwa [hx]
  obtain ⟨htwo, hend⟩ := h.two hw hne
  have hcount : x.pipe.held.length = Ring.count (x.pipe.mMask + 1) x.pipe.mTail x.pipe.mHead :=
    Ring.length_contents
  have hheld : x.pipe.held = [x.pipe.mBuf x.pipe.mTail, x.pipe.mBuf (x.pipe.mTail + 1)] ++
      Ring.contents (x.pipe.mMask + 1) x.pipe.mBuf ((x.pipe.mTail + 2) % (x.pipe.mMask + 1))
        x.pipe.mHead :=
    Ring.contents_pop (by omega) (by omega) (by omega) hend
  have hpop : x.pop = { x with
      pipe := { x.pipe with mTail := (x.pipe.mTail + 2) % (x.pipe.mMask + 1) }
      asleep := if x.pipe.mWrtask.isSome then false else x.asleep
      popped := x.popped ++ [(x.pipe.mBuf x.pipe.mTail, x.pipe.mBuf (x.pipe.mTail + 1))] } := by
    simp only [Audio.pop, kpopSyspipe, if_pos hne, if_neg hne, h.placed.and_mask]
  have hlen : (x.pop).pipe.held.length + 2 = x.pipe.held.length := by
    rw [hpop, hheld, List.length_append]
    simp only [SysPipe.held, List.length_cons, List.length_nil]
    omega
  have horder : bytesOf x.pop.popped ++ x.pop.pipe.held ++ x.pop.src = bytesOf x.pop.written := by
    have ho := h.order
    rw [hheld] at ho
    rw [hpop, bytesOf_append]
    simpa [bytesOf, SysPipe.held] using ho
  have hknows : ∀ c, x.Knows c → x.pop.Knows c := by
    intro c hc
    cases c with
    | out => rwa [hpop]
    | start => trivial
    | sampled navail =>
      simp only [Audio.Knows] at hc ⊢
      rw [show x.pop.pipe.mMask = x.pipe.mMask by rw [hpop]]
      omega
    | copying navail ln k =>
      obtain ⟨hroom, hrest⟩ := hc
      refine ⟨?_, ?_⟩
      · rw [show x.pop.pipe.mMask = x.pipe.mMask by rw [hpop]]
        omega
      · rw [hpop]
        exact hrest
    | tests navail => trivial
  refine ⟨?_, ?_, ?_, ?_, ?_, horder, ?_⟩
  · rw [hpop]
    exact ⟨h.placed.mask, hh, Nat.lt_succ_iff.mp (Nat.mod_lt _ (by omega))⟩
  · rw [hpop]
    exact h.odd
  · rw [hpop]
    dsimp only
    have := h.odd
    have := h.even
    rcases Nat.lt_or_ge (x.pipe.mTail + 2) (x.pipe.mMask + 1) with hlt | hge
    · rw [Nat.mod_eq_of_lt hlt]
      omega
    · rw [show x.pipe.mTail + 2 = x.pipe.mMask + 1 by omega, Nat.mod_self]
  · rw [hpop]
    exact h.rdtask
  · rw [hpop]
    exact h.wrtask
  · have hplace : x.pop.place = x.place := by rw [hpop]
    rw [hplace]
    exact hknows _ h.knows

theorem Audio.Fed.next (h : x.Fed) {e : Audio.Event τ} (hw : x.Whole e) : (x.next e).Fed := by
  cases e with
  | write t samples => exact h.write
  | run => exact h.run
  | pop => exact h.pop hw

/-- As long as no single byte is in the ring when an interrupt comes, the interrupts get the
samples written, in order and unbroken, and the ring holds what is stored and not popped. -/
theorem samples_in_order (h : (audio.restrict Audio.Whole).Reachable x) :
    x.popped <+: x.written ∧
      bytesOf x.popped ++ x.pipe.held ++ x.src = bytesOf x.written := by
  have hfed : x.Fed := h.invariant (fun _ hi => Audio.Fed.init hi) fun _ _ hu ha => hu.next ha.2
  refine ⟨?_, hfed.order⟩
  have ho := hfed.order
  rw [List.append_assoc] at ho
  exact isPrefix_of_bytesOf ho

theorem store_take_push {buf : Nat → BitVec 8} {i : Nat} {src : List (BitVec 8)}
    (hk : k < src.length) : Function.update (Ring.store buf i (src.take k)) (i + k) (src.getD k 0) =
      Ring.store buf i (src.take (k + 1)) := by
  funext j
  by_cases hj : j = i + k
  · subst hj
    rw [Function.update_self, List.getD_eq_getElem _ _ hk]
    have hlen : k < (src.take (k + 1)).length := by simp; omega
    rw [Ring.store_getElem hlen, List.getElem_take]
  · rw [Function.update_of_ne hj]
    simp only [Ring.store, List.length_take]
    split_ifs with h1 h2 h2
    · simp [List.getElem_take]
    · omega
    · omega
    · rfl

theorem run_copying (hs : ln ≤ x.src.length) (hk : k ≤ ln) :
    Audio.run^[k] { x with place := .copying navail ln 0 } =
      { x with
        pipe := { x.pipe with mBuf := Ring.store x.pipe.mBuf x.pipe.mHead (x.src.take k) }
        place := .copying navail ln k } := by
  induction k with
  | zero =>
    have : Ring.store x.pipe.mBuf x.pipe.mHead [] = x.pipe.mBuf :=
      Ring.store_eq_self fun j hj => absurd hj (Nat.not_lt_zero j)
    simp [this]
  | succ k ih =>
    rw [Function.iterate_succ_apply', ih (by omega)]
    simp only [Audio.run, if_pos (show k < ln by omega),
      store_take_push (show k < x.src.length by omega)]

/-- Without an interrupt in between, the steps from the start of a pass on are one pass of
the loop. -/
theorem run_pass (hp : x.place = .start) (hr : x.pipe.mRdtask = .interrupt) :
    ∃ n, (Audio.run^[n] x).pipe = (Writing.pass ⟨x.pipe, x.src, [], 0, false⟩).1.pipe ∧
      (Audio.run^[n] x).src = (Writing.pass ⟨x.pipe, x.src, [], 0, false⟩).1.src ∧
      ((Audio.run^[n] x).place = .start ∨ (Audio.run^[n] x).place = .out) := by
  have hpass : Writing.pass ⟨x.pipe, x.src, [], 0, false⟩ =
      Writing.fill ⟨x.pipe, x.src, [], 0, false⟩ .interrupt := by
    simp [Writing.pass, Writing.direct, hr, ReadTask.isTask]
  rw [hpass]
  by_cases hf : x.src.length ≤ numAvailSyspipe x.pipe ∨ 0 < numAvailSyspipe x.pipe
  · obtain ⟨ln, hln⟩ : ∃ ln, ln =
      min (min (x.pipe.mMask + 1 - x.pipe.mHead) x.src.length) (numAvailSyspipe x.pipe) := ⟨_, rfl⟩
    have hstart : Audio.run^[2] x =
        { x with place := .copying (numAvailSyspipe x.pipe) ln 0 } := by
      simp only [Function.iterate_succ_apply, Function.iterate_zero, id, Audio.run, hp, if_pos hf,
        hln]
    refine ⟨2 + (ln + 2), ?_⟩
    rw [Function.iterate_add_apply, Function.iterate_add_apply, hstart,
      run_copying (by omega) le_rfl]
    have hlen : x.src.length - (x.src.drop ln).length = ln := by
      rw [List.length_drop]
      omega
    simp only [Function.iterate_succ_apply, Function.iterate_zero, id, Audio.run, lt_irrefl,
      if_false, Writing.fill, ReadTask.isInterrupt, true_and, if_pos hf, Writing.store, ← hln, hlen]
    by_cases hd : x.src.drop ln = []
    · simp [hd, Writing.finish]
    · by_cases hn : numAvailSyspipe x.pipe - ln = 0
      · simp [hd, hn]
      · simp [hd, hn]
  · refine ⟨3, ?_⟩
    obtain ⟨hlong, hnone⟩ := not_or.mp hf
    have hsrc : x.src ≠ [] := fun h => hlong (by simp [h])
    have hzero : numAvailSyspipe x.pipe = 0 := by omega
    simp [Audio.run, hp, hsrc, Writing.fill, ReadTask.isInterrupt, hzero]

def newAudio (mMask : Nat) : Audio Unit where
  pipe := ⟨mMask, 0, 0, .interrupt, none, 0, 0, false, fun _ => 0⟩
  place := .out
  src := []
  asleep := false
  written := []
  popped := []

theorem init_newAudio : audio.init (newAudio 15) :=
  ⟨⟨4, by decide, rfl⟩, rfl, rfl, rfl, rfl, rfl, rfl, rfl, rfl⟩

/-- Two samples are written whole, and popped. -/
def played : List (Audio.Event Unit) :=
  [.write () [(1, 2), (3, 4)]] ++ List.replicate 8 .run ++ [.pop, .pop]

theorem samples_in_order_played :
    (played.foldl Audio.next (newAudio 15)).popped <+:
        (played.foldl Audio.next (newAudio 15)).written ∧
      bytesOf (played.foldl Audio.next (newAudio 15)).popped ++
          (played.foldl Audio.next (newAudio 15)).pipe.held ++
          (played.foldl Audio.next (newAudio 15)).src =
        bytesOf (played.foldl Audio.next (newAudio 15)).written :=
  samples_in_order ((System.reachable_init (M := audio.restrict Audio.Whole)
    init_newAudio).foldl (by decide +kernel))

/-- Of sixteen bytes fifteen fit, and eight pops come before the writer runs again. -/
def starved : List (Audio.Event Unit) :=
  [.write () (List.replicate 8 (1, 2))] ++ List.replicate 19 .run ++ List.replicate 8 .pop

theorem starved_breaks_sample : ∃ x : Audio Unit, audio.Reachable x ∧ ¬ x.popped <+: x.written := by
  refine ⟨starved.foldl Audio.next (newAudio 15),
    (System.reachable_init init_newAudio).foldl (by decide +kernel), ?_⟩
  decide +kernel

end S6Soc.ZipOS
