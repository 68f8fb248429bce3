import Mathlib
import S6Soc.Kernel

/-! No event is lost: what was posted to a task is pending or was returned by a WAIT or
CLEAR for it, as long as no task falls asleep in a pipe with an old wait mask. -/
namespace S6Soc.ZipOS
open Clocked

variable {τ ι : Type}

/-- Every event posted, timeouts aside, is pending or has been returned since by a WAIT or
CLEAR whose mask contains it. -/
def Conserved (log : List Entry) (pending : Word) : Prop :=
  ∀ pre events post, log = pre ++ .posted events :: post →
    ∀ b, b ≠ 16 → events.getLsbD b → pending.getLsbD b ∨
      ∃ mask result, .returned mask result ∈ post ∧ mask.getLsbD b ∧ result.getLsbD b

/-- A read of positive length into RAM that would put the reader to sleep. -/
def SysPipe.StallsRead (p : SysPipe τ) : Prop :=
  p.mRdtask = .none ∧ p.mError = false ∧ (p.mWrtask ≠ none ∨ p.mHead = p.mTail)

def SysPipe.StallsWrite (p : SysPipe τ) : Prop :=
  p.mWrtask = none ∧ (p.mRdtask.isTask ∨ (p.mHead + 1) &&& p.mMask = p.mTail)

/-- A task that a READ or WRITE trap puts to sleep has no wait mask left over. -/
def Kernel.Unmasked (k : Kernel τ ι) : Kernel.Event τ ι → Prop
  | .trap (.read fd dst len) => ∀ p, k.lookup fd = some p → (k.pipes p).StallsRead →
      0 < len.toInt → validRamRegion dst len → (k.tasks k.current).waitsig = 0
  | .trap (.write fd src len _) => ∀ p, k.lookup fd = some p → (k.pipes p).StallsWrite →
      0 < len.toInt → validMemRegion src len → (k.tasks k.current).waitsig = 0
  | _ => True

/-- Blocked inside a pipe read or write. -/
def Task.Stalled (t : Task ι) : Prop := t.state = .waiting ∧ t.frame.inPipe

structure Task.Ok (t : Task ι) : Prop where
  conserved : Conserved t.log t.pending
  own : t.frame = .own → t.state ≠ .waiting
  waits (mask : Word) : t.state = .waiting → t.frame = .waiting mask →
    ∀ b, b ≠ 16 → t.waitsig.getLsbD b → mask.getLsbD b
  stalled : t.Stalled → t.waitsig = 0

variable {log : List Entry} {e : Entry} {pending pending' events mask result ms : Word}

theorem getLsbD_and_not {x y : Word} {b : Nat} :
    (x &&& ~~~y).getLsbD b = (x.getLsbD b && !y.getLsbD b) := by
  by_cases hb : b < 32
  · simp [hb]
  · simp [BitVec.getLsbD_of_ge x b (by omega)]

theorem swintTimeout_bit {b : Nat} (hb : b ≠ 16) : SWINT_TIMEOUT.getLsbD b = false := by
  show (BitVec.ofNat 32 (2 ^ 16)).getLsbD b = false
  rw [BitVec.getLsbD_ofNat, Nat.testBit_two_pow]
  simp [hb.symm]

theorem append_singleton_cases {pre post : List Entry} {x y : Entry}
    (h : log ++ [x] = pre ++ y :: post) :
    post = [] ∧ x = y ∨ ∃ post', post = post' ++ [x] ∧ log = pre ++ y :: post' := by
  obtain rfl | ⟨post', z, rfl⟩ := List.eq_nil_or_concat post
  · exact .inl ⟨rfl, (List.append_singleton_inj.mp h).2⟩
  · rw [List.concat_eq_append, ← List.cons_append, ← List.append_assoc] at h
    obtain ⟨hl, rfl⟩ := List.append_singleton_inj.mp h
    exact .inr ⟨post', List.concat_eq_append, hl⟩

theorem Conserved.mono (h : Conserved log pending)
    (hp : ∀ b, b ≠ 16 → pending.getLsbD b → pending'.getLsbD b) : Conserved log pending' := by
  intro pre events post hl b hb he
  obtain h | h := h pre events post hl b hb he
  · exact .inl (hp b hb h)
  · exact .inr h

theorem Conserved.posted (h : Conserved log pending) :
    Conserved (log ++ [.posted events]) (pending ||| events) := by
  intro pre events' post hl b hb he
  obtain ⟨rfl, h'⟩ | ⟨post', rfl, hl'⟩ := append_singleton_cases hl
  · cases h'
    exact .inl (by simp [he])
  · obtain h | ⟨mask, result, hm, h⟩ := h pre events' post' hl' b hb he
    · exact .inl (by simp [h])
    · exact .inr ⟨mask, result, List.mem_append_left _ hm, h⟩

theorem Conserved.returned (h : Conserved log pending)
    (hm : ∀ b, b ≠ 16 → result.getLsbD b → mask.getLsbD b) :
    Conserved (log ++ [.returned mask result]) (pending &&& ~~~result) := by
  intro pre events post hl b hb he
  obtain ⟨-, h'⟩ | ⟨post', rfl, hl'⟩ := append_singleton_cases hl
  · cases h'
  · obtain h | ⟨mask', result', hm', h⟩ := h pre events post' hl' b hb he
    · by_cases hr : result.getLsbD b
      · exact .inr ⟨mask, result, List.mem_append_right _ (by simp), hm b hb hr, hr⟩
      · exact .inl (by simp only [getLsbD_and_not, h, hr, Bool.not_false, Bool.and_self])
    · exact .inr ⟨mask', result', List.mem_append_left _ hm', h⟩

variable {t : Task ι}

theorem Task.Ok.expireWrapped (h : t.Ok) : (t.expireWrapped ms).Ok := by
  simp only [Task.expireWrapped]
  split_ifs
  · exact h
  · exact ⟨h.conserved.mono (by simp +contextual), h.own, h.waits, h.stalled⟩
  · exact ⟨h.conserved, h.own, h.waits, h.stalled⟩
  · exact ⟨h.conserved.mono (by simp +contextual), h.own, h.waits, h.stalled⟩
  · exact ⟨h.conserved, h.own, h.waits, h.stalled⟩

theorem Task.Ok.expire (h : t.Ok) : (t.expire ms).Ok := by
  simp only [Task.expire]
  split_ifs
  · exact h
  · exact ⟨h.conserved.mono (by simp +contextual), h.own, h.waits, h.stalled⟩
  · exact h

theorem Task.Ok.take (h : t.Ok) : (t.take events).Ok := by
  have hc : Conserved (t.log ++ [.posted events]) _ := h.conserved.posted
  simp only [Task.take]
  split_ifs with hg
  · obtain ⟨hs, hg⟩ := hg
    cases hf : t.frame with
    | own => exact absurd hs (h.own hf)
    | waiting mask =>
      refine ⟨?_, by simp, by simp, by simp [Task.Stalled]⟩
      rw [List.append_cons]
      exact hc.returned fun b hb hr => h.waits mask hs hf b hb (by simp_all)
    | reading =>
      have := h.stalled ⟨hs, by simp [hf, Frame.inPipe]⟩
      simp [this] at hg
    | writing =>
      have := h.stalled ⟨hs, by simp [hf, Frame.inPipe]⟩
      simp [this] at hg
  · exact ⟨hc, h.own, h.waits, h.stalled⟩

theorem Task.Ok.post (h : t.Ok) : (t.post events ms).Ok := by
  unfold Task.post
  split_ifs
  · exact h.expireWrapped.take
  · exact h.expire.take

/-- What `kpost` leaves alone in a task blocked in a pipe, and what it adds. -/
structure Task.Undisturbed (t u : Task ι) : Prop where
  state : u.state = t.state
  context1 : u.context1 = t.context1
  waitsig : u.waitsig = t.waitsig
  frame : u.frame = t.frame
  pending (b : Nat) : t.pending.getLsbD b → u.pending.getLsbD b

theorem Task.Undisturbed.refl : t.Undisturbed t := ⟨rfl, rfl, rfl, rfl, fun _ h => h⟩

theorem Task.Undisturbed.trans {u v : Task ι} (h : t.Undisturbed u) (h' : u.Undisturbed v) :
    t.Undisturbed v where
  state := h'.state.trans h.state
  context1 := h'.context1.trans h.context1
  waitsig := h'.waitsig.trans h.waitsig
  frame := h'.frame.trans h.frame
  pending b hb := h'.pending b (h.pending b hb)

theorem Task.undisturbed_expireWrapped : t.Undisturbed (t.expireWrapped ms) := by
  simp only [Task.expireWrapped]
  split_ifs
  all_goals first | exact .refl | exact ⟨rfl, rfl, rfl, rfl, by simp +contextual⟩

theorem Task.undisturbed_expire : t.Undisturbed (t.expire ms) := by
  simp only [Task.expire]
  split_ifs
  all_goals first | exact .refl | exact ⟨rfl, rfl, rfl, rfl, by simp +contextual⟩

theorem Task.undisturbed_take (hs : t.waitsig = 0) : t.Undisturbed (t.take events) := by
  have : ¬ (t.state = .waiting ∧ t.waitsig &&& (t.pending ||| events) ≠ 0) := by simp [hs]
  simp only [Task.take, if_neg this]
  exact ⟨rfl, rfl, rfl, rfl, by simp +contextual⟩

theorem Task.undisturbed_post (hs : t.waitsig = 0) : t.Undisturbed (t.post events ms) := by
  unfold Task.post
  split_ifs
  · exact undisturbed_expireWrapped.trans
      (undisturbed_take (undisturbed_expireWrapped.waitsig.trans hs))
  · exact undisturbed_expire.trans (undisturbed_take (undisturbed_expire.waitsig.trans hs))

/-- An old wait mask takes the event from a task blocked in a pipe. -/
theorem Task.not_conserved_take (hs : t.Stalled) {b : Nat} (hb : b ≠ 16)
    (hw : t.waitsig.getLsbD b) (he : events.getLsbD b) :
    ¬ Conserved (t.take events).log (t.take events).pending := by
  obtain ⟨hs, hp⟩ := hs
  have hne : t.waitsig &&& (t.pending ||| events) ≠ 0 := by
    intro h
    have := congrArg (BitVec.getLsbD · b) h
    simp [hw, he] at this
  have hl : (t.take events).log = t.log ++ [.posted events] := by
    cases hf : t.frame <;> simp_all [Task.take, Frame.inPipe]
  intro hc
  obtain h | ⟨_, _, h, -⟩ := hc t.log events [] hl b hb he
  · simp only [Task.take, if_pos (And.intro hs hne), getLsbD_and_not] at h
    simp [hw, he] at h
  · simp at h

theorem Task.Ok.wait (h : t.Ok) (hs : t.state = .ready) {ilist timeout : Word} {f : Frame ι}
    (hf : f = .waiting ilist ∨ f.inPipe ∧ ilist = 0 ∧ timeout.toInt < 0) :
    ({ t.wait ilist timeout ms with frame := f } : Task ι).Ok := by
  have hc : Conserved (t.log ++ [.returned ilist (ilist &&& t.pending)])
      (t.pending &&& ~~~(ilist &&& t.pending)) := h.conserved.returned (by simp +contextual)
  have ho : f ≠ .own := by
    rintro rfl
    simp [Frame.inPipe] at hf
  have hw : ∀ mask, f = .waiting mask → ilist = mask := by
    rintro mask rfl
    obtain hf | ⟨hf, -⟩ := hf
    · injection hf with hf
      exact hf.symm
    · simp [Frame.inPipe] at hf
  have hp : f.inPipe → ilist = 0 ∧ timeout.toInt < 0 := by
    intro hi
    obtain rfl | ⟨-, hf⟩ := hf
    · simp [Frame.inPipe] at hi
    · exact hf
  simp only [Task.wait]
  split_ifs with hg h0 hpos
  · exact ⟨hc, fun h => absurd h ho, fun _ h => by simp [hs] at h,
      fun h => by simp [Task.Stalled, hs] at h⟩
  · have hz : ilist &&& t.pending = 0 := by rwa [BitVec.and_comm, ← not_ne_iff]
    rw [hz] at hc ⊢
    refine ⟨hc.mono fun b _ h => ?_, fun h => absurd h ho, fun _ h => by simp [hs] at h,
      fun h => by simp [Task.Stalled, hs] at h⟩
    rw [getLsbD_and_not, Bool.and_eq_true] at h
    exact h.1
  · refine ⟨h.conserved, fun h => absurd h ho, fun mask _ h b hb hi => ?_, fun h => ?_⟩
    · rw [← hw mask h]
      simpa [swintTimeout_bit hb] using hi
    · exact absurd hpos (by have := (hp h.2).2; omega)
  · exact ⟨h.conserved, fun h => absurd h ho, fun mask _ h b _ hi => hw mask h ▸ hi,
      fun h => (hp h.2).1⟩

theorem Task.Ok.clear (h : t.Ok) (hs : t.state = .ready) :
    ({ t.clear mask ms with frame := .own } : Task ι).Ok := by
  have hc : Conserved (t.log ++ [.returned mask (mask &&& t.pending)])
      (t.pending &&& ~~~(mask &&& t.pending)) := h.conserved.returned (by simp +contextual)
  have hr : t.state ≠ .waiting := by simp [hs]
  simp only [Task.clear]
  split_ifs
  · exact ⟨hc, fun _ => hr, fun _ h => absurd h hr, fun h => absurd h.1 hr⟩
  · refine ⟨hc.mono fun b hb h => ?_, fun _ => hr, fun _ h => absurd h hr,
      fun h => absurd h.1 hr⟩
    rw [getLsbD_and_not, h, swintTimeout_bit hb]
    rfl
  · exact ⟨hc, fun _ => hr, fun _ h => absurd h hr, fun h => absurd h.1 hr⟩

/-- Only the result register, the state and the frame change, and the task does not wait. -/
theorem Task.Ok.awake (h : t.Ok) {u : Task ι} (hl : u.log = t.log) (hp : u.pending = t.pending)
    (hs : u.state ≠ .waiting) : u.Ok :=
  ⟨by rw [hl, hp]; exact h.conserved, fun _ => hs, fun _ h => absurd h hs,
    fun h => absurd h.1 hs⟩

/-- A pipe trap blocks its task only where it stalls the pipe's end. -/
theorem kread_blocks {q : SysPipe τ} {t : τ} {len : Int} {valid : Bool}
    (hr : (kreadSyspipe q t len valid).refused = none) :
    (kreadSyspipe q t len valid).blocks → q.StallsRead ∧ 0 < len ∧ valid := by
  unfold kreadSyspipe at hr ⊢
  split at hr
  · split_ifs at hr ⊢ with he hl hv
    · simp [refuse] at hr
    · simp [refuse] at hr
    · simp [refuse] at hr
    · cases hw : q.mWrtask <;> simp_all [SysPipe.StallsRead]
  · simp [refuse] at hr

theorem kwrite_blocks {q : SysPipe τ} {t : τ} {len : Int} {valid : Bool}
    (hr : (kwriteSyspipe q t len valid).refused = none) :
    (kwriteSyspipe q t len valid).blocks → q.StallsWrite ∧ 0 < len ∧ valid := by
  unfold kwriteSyspipe at hr ⊢
  split at hr
  · split_ifs at hr ⊢ with hl hv
    · simp [refuse] at hr
    · simp [refuse] at hr
    · cases hw : q.mRdtask <;> simp_all [SysPipe.StallsWrite, ReadTask.isTask]
  · simp [refuse] at hr

theorem Task.Ok.enter (h : t.Ok) (hs : t.state = .ready) {r : Reply τ} {addr : Word}
    {frame : Frame ι} (hf : frame.inPipe)
    (hb : r.refused = none → r.blocks → t.waitsig = 0) : (t.enter r addr frame).Ok := by
  unfold Task.enter
  cases hr : r.refused with
  | some errno => exact h.awake rfl rfl (by simp [hs])
  | none =>
    by_cases hb' : r.blocks
    · refine ⟨h.conserved, ?_, ?_, fun _ => hb hr hb'⟩
      · rintro rfl
        simp [Frame.inPipe] at hf
      · rintro mask - rfl
        simp [Frame.inPipe] at hf
    · exact h.awake rfl rfl (by simp [hb', hs])

theorem Task.Ok.leave (h : t.Ok) (hs : t.state = .ready) {o : Outcome} {frame : Frame ι}
    (hf : o = .sleeps → frame.inPipe) : (t.leave o frame ms).Ok := by
  cases o with
  | again => exact h.awake rfl rfl (by simp [Task.leave, hs])
  | sleeps => exact h.wait hs (.inr ⟨hf rfl, rfl, by decide⟩)
  | done n => exact h.awake rfl rfl (by simp [Task.leave, hs])
  | exits code => exact h.awake rfl rfl (by simp [Task.leave])

/-- A frame in a pipe call stays in it; other frames stay as they are. -/
def KeepsPipe (f : Frame ι → Frame ι) : Prop :=
  ∀ frame, f frame = frame ∨ frame.inPipe ∧ (f frame).inPipe

theorem keepsPipe_offer {src : List (BitVec 8)} : KeepsPipe (Frame.offer (ι := ι) src) := by
  intro frame
  unfold Frame.offer
  split <;> simp [Frame.inPipe]

theorem keepsPipe_want {dst : List (BitVec 8)} {n : Nat} :
    KeepsPipe (Frame.want (ι := ι) dst n) := by
  intro frame
  unfold Frame.want
  split <;> simp [Frame.inPipe]

theorem Task.Ok.partner (h : t.Ok) {f : Frame ι → Frame ι} (hf : KeepsPipe f) :
    ({ t with frame := f t.frame } : Task ι).Ok := by
  obtain he | ⟨hi, hi'⟩ := hf t.frame
  · rw [he]
    exact h
  · refine ⟨h.conserved, fun he => ?_, fun mask _ he => ?_, fun hs => h.stalled ⟨hs.1, hi⟩⟩
    · simp [show f t.frame = .own from he, Frame.inPipe] at hi'
    · simp [show f t.frame = .waiting mask from he, Frame.inPipe] at hi'

def Kernel.Ok (k : Kernel τ ι) : Prop := ∀ t, (k.tasks t).Ok

variable {k : Kernel τ ι} {p : ι}

theorem Kernel.Ok.kpost (h : k.Ok) (t : τ) : ((kpost k.tasks events ms).1 t).Ok := (h t).post

theorem Kernel.Ok.init (h : k.Init) : k.Ok := by
  intro t
  refine ⟨?_, ?_, ?_, ?_⟩
  · rw [h.log]
    intro pre events post hl
    simp at hl
  all_goals simp [Task.Stalled, h.state]

variable [DecidableEq τ]

theorem Kernel.Ok.setTask (h : k.Ok) {t : τ} {f : Task ι → Task ι} (hf : (f (k.tasks t)).Ok) :
    (k.setTask t f).Ok := by
  intro u
  by_cases hu : u = t
  · subst hu
    simpa [Kernel.setTask] using hf
  · simpa [Kernel.setTask, hu] using h u

theorem Kernel.Ok.wake (h : k.Ok) (t : Option τ) : (k.wake t).Ok := by
  cases t with
  | none => exact h
  | some t =>
    have hw : ({ k.tasks t with state := .ready } : Task ι).Ok := (h t).awake rfl rfl (by simp)
    exact h.setTask (f := fun u => { u with state := .ready }) hw

theorem Kernel.Ok.partner (h : k.Ok) {f : Frame ι → Frame ι} (hf : KeepsPipe f) (u : Option τ)
    (wakes : Bool) : (k.partner u f wakes).Ok := by
  cases u with
  | none => exact h
  | some u =>
    simp only [Kernel.partner]
    refine Kernel.Ok.setTask h ?_
    cases wakes
    · exact (h u).partner hf
    · exact (h u).awake rfl rfl (by simp)

theorem partner_ready {u : Option τ} {f : Frame ι → Frame ι} {wakes : Bool} {t : τ}
    (hs : (k.tasks t).state = .ready) : ((k.partner u f wakes).tasks t).state = .ready := by
  cases u with
  | none => exact hs
  | some u =>
    by_cases hu : t = u
    · subst hu
      simp [Kernel.partner, Kernel.setTask, hs]
    · simpa [Kernel.partner, Kernel.setTask, hu] using hs

theorem current_partner {u : Option τ} {f : Frame ι → Frame ι} {wakes : Bool} :
    (k.partner u f wakes).current = k.current := by
  cases u <;> rfl

theorem Kernel.Ok.leave (h : k.Ok) (hs : (k.tasks k.current).state = .ready) {o : Outcome}
    {frame : Frame ι} (hf : o = .sleeps → frame.inPipe) : (k.leave o frame).Ok :=
  h.setTask ((h k.current).leave hs hf)

variable [DecidableEq ι]

theorem Kernel.Ok.enter (h : k.Ok) (hs : (k.tasks k.current).state = .ready) {r : Reply τ}
    {frame : Frame ι} (hf : frame.inPipe)
    (hb : r.refused = none → r.blocks → (k.tasks k.current).waitsig = 0) :
    (k.enter p r frame).Ok :=
  Kernel.Ok.wake (Kernel.Ok.setTask (k := k.setPipe p r.pipe) h
    ((h k.current).enter hs hf hb)) r.wakes

theorem Kernel.Ok.trap (h : k.Ok) {tr : Trap} (hs : (k.tasks k.current).state = .ready)
    (hu : k.Unmasked (.trap tr)) : (k.trap tr).Ok := by
  have hw := h k.current
  have hn : (k.tasks k.current).state ≠ .waiting := by simp [hs]
  have hb : k.badf.Ok := by
    refine Kernel.Ok.setTask h ?_
    exact hw.awake rfl rfl hn
  cases tr with
  | wait ilist timeout =>
    simp only [Kernel.trap]
    refine Kernel.Ok.setTask h ?_
    exact hw.wait hs (.inl rfl)
  | clear mask =>
    simp only [Kernel.trap]
    refine Kernel.Ok.setTask h ?_
    exact hw.clear hs
  | post events => exact h.kpost
  | yield => exact h
  | read fd dst len =>
    simp only [Kernel.trap]
    cases hl : k.lookup fd with
    | none => exact hb
    | some p =>
      refine h.enter hs rfl fun hr hb => ?_
      obtain ⟨hst, hlen, hv⟩ := kread_blocks hr hb
      exact hu p hl hst hlen hv
  | write fd src len bytes =>
    simp only [Kernel.trap]
    cases hl : k.lookup fd with
    | none => exact hb
    | some p =>
      refine h.enter hs rfl fun hr hb => ?_
      obtain ⟨hst, hlen, hv⟩ := kwrite_blocks hr hb
      exact hu p hl hst hlen hv
  | result value =>
    simp only [Kernel.trap]
    refine Kernel.Ok.setTask h ?_
    exact hw.awake rfl rfl hn
  | exit =>
    have he : (k.setTask k.current fun t => { t with state := .exit, frame := .own }).Ok := by
      refine Kernel.Ok.setTask h ?_
      exact hw.awake rfl rfl (by simp)
    exact he

theorem Kernel.Ok.passed (h : k.Ok) (hs : (k.tasks k.current).state = .ready) {q : SysPipe τ}
    {f : Frame ι → Frame ι} (hf : KeepsPipe f) {u : Option τ} {wakes : Bool} {o : Outcome}
    {frame : Frame ι} (hi : frame.inPipe) :
    (((k.setPipe p q).partner u f wakes).leave o frame).Ok := by
  have hq : (k.setPipe p q).Ok := h
  refine (hq.partner hf u wakes).leave ?_ fun _ => hi
  rw [current_partner]
  exact partner_ready hs

theorem Kernel.Ok.pass (h : k.Ok) (hs : (k.tasks k.current).state = .ready) : k.pass.Ok := by
  unfold Kernel.pass
  split
  · exact h.leave hs (by simp)
  · simp only [Kernel.readPass]
    exact h.passed hs keepsPipe_offer rfl
  · simp only [Kernel.writePass]
    exact h.passed hs keepsPipe_want rfl
  · exact h

theorem Kernel.Ok.next (h : k.Ok) {e : Kernel.Event τ ι} (he : k.Enabled e)
    (hu : k.Unmasked e) : (k.next e).Ok := by
  cases e with
  | post events => exact h.kpost
  | push p val => exact Kernel.Ok.wake (k := k.setPipe p _) h _
  | pop p => exact Kernel.Ok.wake (k := k.setPipe p _) h _
  | popShort p => exact Kernel.Ok.wake (k := k.setPipe p _) h _
  | trap tr => exact h.trap he.1 hu
  | pass => exact h.pass he.1
  | schedule t => exact h

theorem Kernel.Ok.reachable (h : (kernelEntry.restrict Kernel.Unmasked).Reachable k) : k.Ok :=
  h.invariant (fun _ => Kernel.Ok.init) fun _ _ hk ha => hk.next ha.1 ha.2

/-- As long as no task is put to sleep in a pipe with an old wait mask, no event is lost and
`kpost` leaves the tasks blocked in pipes alone. -/
theorem events_conserved (h : (kernelEntry.restrict Kernel.Unmasked).Reachable k) (t : τ) :
    Conserved (k.tasks t).log (k.tasks t).pending ∧
      ((k.tasks t).Stalled → ∀ events ms,
        (k.tasks t).Undisturbed ((kpost k.tasks events ms).1 t)) :=
  ⟨(Kernel.Ok.reachable h t).conserved,
    fun hs _ _ => Task.undisturbed_post ((Kernel.Ok.reachable h t).stalled hs)⟩

instance SysPipe.decidableStallsRead (q : SysPipe τ) : Decidable q.StallsRead :=
  inferInstanceAs (Decidable (_ ∧ _ ∧ _))

instance SysPipe.decidableStallsWrite (q : SysPipe τ) : Decidable q.StallsWrite :=
  inferInstanceAs (Decidable (_ ∧ _))

instance Kernel.decidableUnmasked [Fintype ι] (k : Kernel τ ι) :
    (e : Kernel.Event τ ι) → Decidable (k.Unmasked e)
  | .trap (.read fd dst len) => inferInstanceAs (Decidable (∀ p, k.lookup fd = some p →
      (k.pipes p).StallsRead → 0 < len.toInt → validRamRegion dst len →
      (k.tasks k.current).waitsig = 0))
  | .trap (.write fd src len _) => inferInstanceAs (Decidable (∀ p, k.lookup fd = some p →
      (k.pipes p).StallsWrite → 0 < len.toInt → validMemRegion src len →
      (k.tasks k.current).waitsig = 0))
  | .trap (.wait ..) | .trap (.clear _) | .trap (.post _) | .trap .yield | .trap (.result _)
  | .trap .exit | .post _ | .push .. | .pop _ | .popShort _ | .pass | .schedule _ =>
    .isTrue trivial

instance Kernel.decidableRestrict [Fintype ι] (k : Kernel τ ι) (e : Kernel.Event τ ι) :
    Decidable ((kernelEntry.restrict Kernel.Unmasked).allowed k e) :=
  inferInstanceAs (Decidable (k.Enabled e ∧ k.Unmasked e))

/-- A task and the idle task, and a pipe of 16 cells that an interrupt drains. -/
def newKernel : Kernel (Fin 2) Unit where
  tasks _ := ⟨.ready, 0, 0, 0, 0, .own, []⟩
  pipes _ := ⟨15, 0, 0, .interrupt, none, 0, 0, false, fun _ => 0⟩
  fd _ _ := some ()
  addr _ := 0x4400
  idle := 1
  current := 0
  needResched := false
  milliseconds := 0

theorem init_newKernel : kernelEntry.init newKernel :=
  ⟨fun _ => rfl, fun _ => rfl, fun _ => rfl, fun _ => rfl, fun _ => rfl, fun _ => rfl, rfl⟩

def writeOut (n : Nat) : Kernel.Event (Fin 2) Unit :=
  .trap (.write 3 0x1000000 (BitVec.ofNat 32 n) (List.replicate n 0))

/-- The task waits for the button with nothing left over, gets it, and then blocks on the
pipe its first write has filled. -/
def answered : List (Kernel.Event (Fin 2) Unit) :=
  [.trap (.wait 0x8001 (-1)), .schedule 1, .post 0x0001, .schedule 0, writeOut 15, .pass,
    writeOut 1]

theorem events_conserved_answered :
    ((answered.foldl kernelEntry.next newKernel).tasks 0).Stalled ∧
      Conserved ((answered.foldl kernelEntry.next newKernel).tasks 0).log
        ((answered.foldl kernelEntry.next newKernel).tasks 0).pending ∧
      ((answered.foldl kernelEntry.next newKernel).tasks 0).Undisturbed
        ((kpost (answered.foldl kernelEntry.next newKernel).tasks 0x0001 0).1 0) := by
  have hs : ((answered.foldl kernelEntry.next newKernel).tasks 0).Stalled :=
    ⟨by decide +kernel, by decide +kernel⟩
  have h := events_conserved (System.Reachable.foldl
    (M := kernelEntry.restrict Kernel.Unmasked) (System.reachable_init init_newKernel)
    (by decide +kernel : System.Admits _ newKernel answered)) 0
  exact ⟨hs, h.1, h.2 hs _ _⟩

/-- As the doorbell does: a write fills the pipe, a look at the button finds nothing, the
next write blocks, and the button is pressed. -/
def ringing : List (Kernel.Event (Fin 2) Unit) :=
  [writeOut 15, .pass, .trap (.wait 0x8001 0), writeOut 1, .post 0x0001]

theorem ringing_loses_button : ∃ k : Kernel (Fin 2) Unit, kernelEntry.Reachable k ∧
    ¬ Conserved (k.tasks 0).log (k.tasks 0).pending := by
  refine ⟨ringing.foldl kernelEntry.next newKernel,
    (System.reachable_init init_newKernel).foldl (by decide +kernel), fun hc => ?_⟩
  have hl : ((ringing.foldl kernelEntry.next newKernel).tasks 0).log =
      [.returned 0x8001 0] ++ .posted 0x0001 :: [] := by decide +kernel
  obtain h | ⟨_, _, h, -⟩ := hc _ _ _ hl 0 (by decide) (by decide)
  · revert h
    decide +kernel
  · simp at h

end S6Soc.ZipOS
