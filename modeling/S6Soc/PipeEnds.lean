import Mathlib
import S6Soc.KernelEvents

/-! The ends of pipes: the task that a pipe has as its reader or writer is in a call on that
pipe, so that nobody wakes a task asleep elsewhere. -/
namespace S6Soc.ZipOS
open Clocked

variable {τ ι : Type}

/-- As `new_syspipe` makes it, drained by an interrupt or not. -/
structure SysPipe.Unclaimed (p : SysPipe τ) : Prop where
  rdtask (t : τ) : p.mRdtask ≠ .task t
  wrtask : p.mWrtask = none

/-- TRAPID_EXIT ends in `zip_halt`. -/
def Kernel.Halted (k : Kernel τ ι) : Prop := ∃ t, (k.tasks t).state = .exit

/-- The kernel on new pipes, until a task exits. -/
def halting [DecidableEq τ] [DecidableEq ι] : System (Kernel τ ι) (Kernel.Event τ ι) where
  init k := k.Init ∧ ∀ p, (k.pipes p).Unclaimed
  allowed k e := k.Enabled e ∧ ¬ k.Halted
  next := Kernel.next

instance [Fintype τ] (k : Kernel τ ι) : Decidable k.Halted :=
  inferInstanceAs (Decidable (∃ t, (k.tasks t).state = .exit))

instance [Fintype τ] [DecidableEq τ] [DecidableEq ι] (k : Kernel τ ι) (e : Kernel.Event τ ι) :
    Decidable (halting.allowed k e) :=
  inferInstanceAs (Decidable (k.Enabled e ∧ ¬ k.Halted))

/-- The running task about to make a pass of `uread_syspipe`. -/
def Kernel.reading (k : Kernel τ ι) (p : ι) (dst : List (BitVec 8)) (nleft : Nat) : Reading τ :=
  ⟨k.pipes p, dst, nleft,
    ((k.pipes p).mWrtask.map fun w => (k.tasks w).frame.offered).getD [], false⟩

def Kernel.wanted (k : Kernel τ ι) (p : ι) : List (BitVec 8) × Nat :=
  ((k.pipes p).mRdtask.toOption.map fun r => (k.tasks r).frame.wanted).getD ([], 0)

/-- The running task about to make a pass of `uwrite_syspipe`. -/
def Kernel.writing (k : Kernel τ ι) (p : ι) (src : List (BitVec 8)) : Writing τ :=
  ⟨k.pipes p, src, (k.wanted p).1, (k.wanted p).2, false⟩

/-- The task at either end of a pipe is in a call on that pipe, and a reader whose registers
still stand wants bytes. -/
def Kernel.Owned (k : Kernel τ ι) : Prop :=
  ∀ p, (∀ t, (k.pipes p).mRdtask = .task t → ∃ fresh dst nleft,
      (k.tasks t).frame = .reading p fresh dst nleft ∧ (fresh → 0 < nleft)) ∧
    ∀ t, (k.pipes p).mWrtask = some t → ∃ fresh src, (k.tasks t).frame = .writing p fresh src

/-- The ends of `q` are those of `p` or given up. -/
def SysPipe.Releases (p q : SysPipe τ) : Prop :=
  (∀ t, q.mRdtask = .task t → p.mRdtask = .task t) ∧ ∀ t, q.mWrtask = some t → p.mWrtask = some t

theorem SysPipe.Releases.refl {p : SysPipe τ} : p.Releases p := ⟨fun _ h => h, fun _ h => h⟩

theorem SysPipe.Releases.trans {p q r : SysPipe τ} (h : p.Releases q) (h' : q.Releases r) :
    p.Releases r :=
  ⟨fun t ht => h.1 t (h'.1 t ht), fun t ht => h.2 t (h'.2 t ht)⟩

section
variable {s : Reading τ} {h : Nat}

theorem releases_wrapped : s.pipe.Releases (s.wrapped h).pipe := by
  unfold Reading.wrapped
  split_ifs
  · exact ⟨fun _ h => h, fun _ h => h⟩
  · exact .refl

theorem releases_straight : s.pipe.Releases (s.straight h).pipe := by
  unfold Reading.straight
  split_ifs
  · exact ⟨fun _ h => h, fun _ h => h⟩
  · exact .refl

theorem releases_reading_direct : s.pipe.Releases s.direct.pipe := by
  unfold Reading.direct
  split_ifs
  · refine ⟨fun _ h => h, fun t h => ?_⟩
    dsimp only at h
    split_ifs at h
    exact h
  · exact .refl

theorem releases_reading_finish : s.pipe.Releases s.finish.1.pipe :=
  ⟨fun _ h => by simp [Reading.finish] at h, fun _ h => h⟩

theorem releases_reading_pass : s.pipe.Releases s.pass.1.pipe := by
  have hw : s.pipe.Releases (s.wrapped s.pipe.mHead).pipe := releases_wrapped
  have hs : s.pipe.Releases ((s.wrapped s.pipe.mHead).straight s.pipe.mHead).pipe :=
    hw.trans releases_straight
  unfold Reading.pass
  dsimp only
  split
  · exact hw
  · split
    · exact hs
    · by_cases hz : ((s.wrapped s.pipe.mHead).straight s.pipe.mHead).nleft = 0
      · simp only [if_pos hz]
        exact hs.trans releases_reading_finish
      · have hd := hs.trans releases_reading_direct
        simp only [if_neg hz]
        split_ifs
        · exact hd.trans releases_reading_finish
        · exact hd
        · exact hd

/-- A reader that returns has given up the read end. -/
theorem reading_pass_done {n : Nat} (hd : s.pass.2 = .done n) :
    s.pass.1.pipe.mRdtask = .none := by
  unfold Reading.pass at hd ⊢
  dsimp only at hd ⊢
  split at hd
  · cases hd
  · split at hd
    · cases hd
    · split_ifs at hd ⊢ <;> rfl

end

section
variable {s : Writing τ}

theorem releases_writing_direct : s.pipe.Releases s.direct.pipe := by
  unfold Writing.direct
  split
  next r hr =>
    refine ⟨fun t h => ?_, fun _ h => h⟩
    dsimp only at h
    split_ifs at h
    exact hr.trans h
  · exact .refl

theorem releases_fill {r : ReadTask τ} : s.pipe.Releases (s.fill r).1.pipe := by
  have hs : ∀ n, s.pipe.Releases (s.store n).pipe := fun _ => ⟨fun _ h => h, fun _ h => h⟩
  have hf : s.pipe.Releases s.finish.1.pipe :=
    ⟨fun _ h => h, fun _ h => by simp [Writing.finish] at h⟩
  unfold Writing.fill
  dsimp only
  split_ifs <;> first | exact .refl | exact hf

theorem releases_writing_pass : s.pipe.Releases s.pass.1.pipe := by
  unfold Writing.pass
  dsimp only
  split_ifs
  · exact releases_writing_direct.trans ⟨fun _ h => h, fun _ h => by simp [Writing.finish] at h⟩
  · exact releases_writing_direct.trans releases_fill

theorem fill_done {r : ReadTask τ} {n : Nat} (hd : (s.fill r).2 = .done n) :
    (s.fill r).1.pipe.mWrtask = none := by
  unfold Writing.fill at hd ⊢
  dsimp only at hd ⊢
  split_ifs at hd ⊢ <;> rfl

/-- A writer that returns has given up the write end. -/
theorem writing_pass_done {n : Nat} (hd : s.pass.2 = .done n) :
    s.pass.1.pipe.mWrtask = none := by
  unfold Writing.pass at hd ⊢
  dsimp only at hd ⊢
  split_ifs at hd ⊢
  · rfl
  · exact fill_done hd

theorem fill_not_exits {r : ReadTask τ} {n : Nat} : (s.fill r).2 ≠ .exits n := by
  unfold Writing.fill
  dsimp only
  split_ifs <;> simp [Writing.finish]

theorem writing_pass_not_exits {n : Nat} : s.pass.2 ≠ .exits n := by
  unfold Writing.pass
  dsimp only
  split_ifs
  · simp [Writing.finish]
  · exact fill_not_exits

theorem fill_want {r : ReadTask τ} : (s.fill r).1.want = s.want := by
  unfold Writing.fill
  dsimp only
  split_ifs <;> rfl

/-- A reader that still owns the read end after a pass of the writer wants more. -/
theorem writing_pass_want {t : τ} (h : s.pass.1.pipe.mRdtask = .task t) : 0 < s.pass.1.want := by
  have hd : ∀ {r : τ}, s.direct.pipe.mRdtask = .task r → 0 < s.direct.want := by
    intro r h
    unfold Writing.direct at h ⊢
    split at h
    next r hr =>
      dsimp only at h ⊢
      split_ifs at h with hz
      omega
    next hr => exact absurd h (hr r)
  unfold Writing.pass at h ⊢
  dsimp only at h ⊢
  split_ifs at h ⊢
  · exact hd h
  · rw [fill_want]
    exact hd (releases_fill.1 t h)

end

theorem kread_ends {q : SysPipe τ} {u t : τ} {len : Int} {valid : Bool} :
    ((kreadSyspipe q u len valid).pipe.mRdtask = .task t → q.mRdtask = .task t ∨
      t = u ∧ (kreadSyspipe q u len valid).refused = none ∧ 0 < len) ∧
    ((kreadSyspipe q u len valid).pipe.mWrtask = some t → q.mWrtask = some t) := by
  unfold kreadSyspipe
  split
  · split_ifs with he hl hv
    · exact ⟨.inl, fun h => h⟩
    · exact ⟨.inl, fun h => h⟩
    · exact ⟨.inl, fun h => h⟩
    · dsimp only
      split
      · exact ⟨fun h => .inr ⟨(ReadTask.task.inj h).symm, rfl, by omega⟩, fun h => h⟩
      · exact ⟨fun h => .inr ⟨(ReadTask.task.inj h).symm, rfl, by omega⟩, fun h => h⟩
  · exact ⟨.inl, fun h => h⟩

theorem kwrite_ends {q : SysPipe τ} {u t : τ} {len : Int} {valid : Bool} :
    ((kwriteSyspipe q u len valid).pipe.mRdtask = .task t → q.mRdtask = .task t) ∧
    ((kwriteSyspipe q u len valid).pipe.mWrtask = some t → q.mWrtask = some t ∨
      t = u ∧ (kwriteSyspipe q u len valid).refused = none) := by
  unfold kwriteSyspipe
  split
  · split_ifs with hl hv
    · exact ⟨fun h => h, .inl⟩
    · exact ⟨fun h => h, .inl⟩
    · dsimp only
      split
      · exact ⟨fun h => h, fun h => .inr ⟨(Option.some.inj h).symm, rfl⟩⟩
      · exact ⟨fun h => h, fun h => .inr ⟨(Option.some.inj h).symm, rfl⟩⟩
  · exact ⟨fun h => h, .inl⟩

variable {k k' : Kernel τ ι} {t u : τ} {p : ι}

theorem Kernel.Owned.mono (h : k.Owned) (hp : ∀ p, (k.pipes p).Releases (k'.pipes p))
    (hf : ∀ t, (k'.tasks t).frame = (k.tasks t).frame ∨ (k.tasks t).frame.inPipe = false) :
    k'.Owned := by
  intro p
  obtain ⟨hr, hw⟩ := h p
  constructor
  · intro t ht
    obtain ⟨fresh, dst, n, hfr, hn⟩ := hr t ((hp p).1 t ht)
    obtain he | he := hf t
    · exact ⟨fresh, dst, n, he.trans hfr, hn⟩
    · simp [hfr, Frame.inPipe] at he
  · intro t ht
    obtain ⟨fresh, src, hfr⟩ := hw t ((hp p).2 t ht)
    obtain he | he := hf t
    · exact ⟨fresh, src, he.trans hfr⟩
    · simp [hfr, Frame.inPipe] at he

theorem Kernel.Owned.init (hp : ∀ p, (k.pipes p).Unclaimed) : k.Owned := by
  intro p
  refine ⟨fun t ht => absurd ht ((hp p).rdtask t), fun t ht => ?_⟩
  simp [(hp p).wrtask] at ht

/-- A task that is in no pipe call is at no pipe's end. -/
theorem Kernel.Owned.not_end (h : k.Owned) (hf : (k.tasks t).frame.inPipe = false) (p : ι) :
    (k.pipes p).mRdtask ≠ .task t ∧ (k.pipes p).mWrtask ≠ some t := by
  constructor
  · intro ht
    obtain ⟨_, _, _, hfr, -⟩ := (h p).1 t ht
    simp [hfr, Frame.inPipe] at hf
  · intro ht
    obtain ⟨_, _, hfr⟩ := (h p).2 t ht
    simp [hfr, Frame.inPipe] at hf

section
variable [DecidableEq τ] {f : Task ι → Task ι}

theorem Kernel.frame_setTask (hf : (f (k.tasks u)).frame = (k.tasks u).frame) :
    ((k.setTask u f).tasks t).frame = (k.tasks t).frame := by
  by_cases ht : t = u
  · subst ht
    simpa [Kernel.setTask] using hf
  · simp [Kernel.setTask, ht]

theorem Kernel.frame_wake {v : Option τ} :
    ((k.wake v).tasks t).frame = (k.tasks t).frame := by
  cases v with
  | none => rfl
  | some v => exact frame_setTask (f := fun u => { u with state := .ready }) rfl

theorem Kernel.pipes_wake {v : Option τ} : (k.wake v).pipes = k.pipes := by
  cases v <;> rfl

theorem Task.frame_take {t : Task ι} {events : Word} : (t.take events).frame = t.frame := by
  simp only [Task.take]
  split_ifs <;> rfl

theorem Task.frame_post {t : Task ι} {events ms : Word} : (t.post events ms).frame = t.frame := by
  unfold Task.post
  split_ifs
  · exact frame_take.trans undisturbed_expireWrapped.frame
  · exact frame_take.trans undisturbed_expire.frame

theorem Task.frame_leave {t : Task ι} {o : Outcome} {frame : Frame ι} {ms : Word}
    (hd : ∀ n, o ≠ .done n) (he : ∀ n, o ≠ .exits n) : (t.leave o frame ms).frame = frame := by
  cases o with
  | done n => exact absurd rfl (hd n)
  | exits n => exact absurd rfl (he n)
  | again => rfl
  | sleeps => rfl

/-- A trap that leaves the pipes alone: the running task is in no pipe call. -/
theorem Kernel.Owned.setTask (h : k.Owned) (hf : (k.tasks u).frame.inPipe = false) :
    (k.setTask u f).Owned := by
  refine h.mono (fun _ => .refl) fun t => ?_
  by_cases ht : t = u
  · subst ht
    exact .inr hf
  · exact .inl (by simp [Kernel.setTask, ht])

variable [DecidableEq ι]

theorem Kernel.pipes_enter {r : Reply τ} {frame : Frame ι} :
    (k.enter p r frame).pipes = Function.update k.pipes p r.pipe := pipes_wake

theorem Kernel.frame_enter {r : Reply τ} {frame : Frame ι} (ht : t ≠ k.current) :
    ((k.enter p r frame).tasks t).frame = (k.tasks t).frame :=
  frame_wake.trans (by simp [Kernel.setTask, Kernel.setPipe, ht])

theorem Kernel.frame_enter_current {r : Reply τ} {frame : Frame ι} :
    ((k.enter p r frame).tasks k.current).frame =
      if r.refused = none then frame else .own := by
  refine frame_wake.trans ?_
  simp only [Kernel.setTask, Kernel.setPipe, Function.update_self, Task.enter]
  cases hr : r.refused <;> simp

/-- The running task, in no pipe call so far, claims an end of `p` or is refused. -/
theorem Kernel.Owned.enter (h : k.Owned) (hf : (k.tasks k.current).frame.inPipe = false)
    {r : Reply τ} {frame : Frame ι}
    (hr : ∀ t, r.pipe.mRdtask = .task t → (k.pipes p).mRdtask = .task t ∨
      t = k.current ∧ r.refused = none ∧ ∃ n, frame = .reading p true [] n ∧ 0 < n)
    (hw : ∀ t, r.pipe.mWrtask = some t → (k.pipes p).mWrtask = some t ∨
      t = k.current ∧ r.refused = none ∧ ∃ src, frame = .writing p true src) :
    (k.enter p r frame).Owned := by
  have hcur : r.refused = none → ((k.enter p r frame).tasks k.current).frame = frame := by
    intro href
    rw [frame_enter_current, if_pos href]
  -- nobody else's frame has changed, and the running task was at no end
  have hold : ∀ q t, (k.pipes q).mRdtask = .task t ∨ (k.pipes q).mWrtask = some t →
      ((k.enter p r frame).tasks t).frame = (k.tasks t).frame := by
    rintro q t ht
    refine frame_enter fun he => ?_
    subst he
    obtain ht | ht := ht
    · exact (h.not_end hf q).1 ht
    · exact (h.not_end hf q).2 ht
  intro q
  rw [pipes_enter]
  by_cases hq : q = p
  · subst hq
    rw [Function.update_self]
    constructor
    · intro t ht
      obtain ht | ⟨rfl, href, n, rfl, hn⟩ := hr t ht
      · obtain ⟨fresh, dst, n, hfr, hn⟩ := (h q).1 t ht
        exact ⟨fresh, dst, n, (hold q t (.inl ht)).trans hfr, hn⟩
      · exact ⟨true, [], n, hcur href, fun _ => hn⟩
    · intro t ht
      obtain ht | ⟨rfl, href, src, rfl⟩ := hw t ht
      · obtain ⟨fresh, src, hfr⟩ := (h q).2 t ht
        exact ⟨fresh, src, (hold q t (.inr ht)).trans hfr⟩
      · exact ⟨true, src, hcur href⟩
  · rw [Function.update_of_ne hq]
    constructor
    · intro t ht
      obtain ⟨fresh, dst, n, hfr, hn⟩ := (h q).1 t ht
      exact ⟨fresh, dst, n, (hold q t (.inl ht)).trans hfr, hn⟩
    · intro t ht
      obtain ⟨fresh, src, hfr⟩ := (h q).2 t ht
      exact ⟨fresh, src, (hold q t (.inr ht)).trans hfr⟩

theorem Kernel.Owned.trap (h : k.Owned) {tr : Trap}
    (hf : (k.tasks k.current).frame.inPipe = false) : (k.trap tr).Owned := by
  have hb : k.badf.Owned := h.setTask hf
  cases tr with
  | post events => exact h.mono (fun _ => .refl) fun t => .inl Task.frame_post
  | yield => exact h
  | read fd dst len =>
    simp only [Kernel.trap]
    split
    · exact hb
    · refine h.enter hf (fun t ht => ?_) fun t ht => .inl (kread_ends.2 ht)
      obtain ht | ⟨rfl, href, hlen⟩ := kread_ends.1 ht
      · exact .inl ht
      · refine .inr ⟨rfl, href, len.toNat, rfl, ?_⟩
        by_contra hz
        have : len = 0 := BitVec.eq_of_toNat_eq (by simpa using hz)
        simp [this] at hlen
  | write fd src len bytes =>
    simp only [Kernel.trap]
    split
    · exact hb
    · refine h.enter hf (fun t ht => .inl (kwrite_ends.1 ht)) fun t ht => ?_
      obtain ht | ⟨rfl, href⟩ := kwrite_ends.2 ht
      · exact .inl ht
      · exact .inr ⟨rfl, href, bytes, rfl⟩
  | exit =>
    have he : (k.setTask k.current fun t => { t with state := .exit, frame := .own }).Owned :=
      h.setTask hf
    exact he
  | _ =>
    simp only [Kernel.trap]
    exact h.setTask hf

/-- What a pass does to frames: those of others keep their place in their call, and the
running task's keeps its ends. -/
theorem Kernel.Owned.passed (h : k.Owned) {q : SysPipe τ} (hq : (k.pipes p).Releases q)
    (hpipes : k'.pipes = Function.update k.pipes p q)
    (hrd : ∀ t p' fresh dst n, t ≠ k.current → (k.tasks t).frame = .reading p' fresh dst n →
      (k'.pipes p').mRdtask = .task t → (fresh → 0 < n) →
      ∃ dst n, (k'.tasks t).frame = .reading p' fresh dst n ∧ (fresh → 0 < n))
    (hwr : ∀ t p' fresh src, t ≠ k.current → (k.tasks t).frame = .writing p' fresh src →
      ∃ src, (k'.tasks t).frame = .writing p' fresh src)
    (hcr : ∀ p' fresh dst n, (k.tasks k.current).frame = .reading p' fresh dst n →
      (k'.pipes p').mRdtask = .task k.current →
      ∃ dst n, (k'.tasks k.current).frame = .reading p' false dst n)
    (hcw : ∀ p' fresh src, (k.tasks k.current).frame = .writing p' fresh src →
      (k'.pipes p').mWrtask = some k.current →
      ∃ src, (k'.tasks k.current).frame = .writing p' false src) : k'.Owned := by
  have hrel : ∀ p', (k.pipes p').Releases (k'.pipes p') := by
    intro p'
    rw [hpipes]
    by_cases hp : p' = p
    · subst hp
      simpa using hq
    · simpa [hp] using SysPipe.Releases.refl
  intro p'
  constructor
  · intro t ht
    obtain ⟨fresh, dst, n, hfr, hn⟩ := (h p').1 t ((hrel p').1 t ht)
    by_cases hc : t = k.current
    · subst hc
      obtain ⟨dst, n, hfr⟩ := hcr p' fresh dst n hfr ht
      exact ⟨false, dst, n, hfr, by simp⟩
    · obtain ⟨dst, n, hfr, hn⟩ := hrd t p' fresh dst n hc hfr ht hn
      exact ⟨fresh, dst, n, hfr, hn⟩
  · intro t ht
    obtain ⟨fresh, src, hfr⟩ := (h p').2 t ((hrel p').2 t ht)
    by_cases hc : t = k.current
    · subst hc
      obtain ⟨src, hfr⟩ := hcw p' fresh src hfr ht
      exact ⟨false, src, hfr⟩
    · obtain ⟨src, hfr⟩ := hwr t p' fresh src hc hfr
      exact ⟨fresh, src, hfr⟩

omit [DecidableEq ι] in
theorem Kernel.frame_partner {v : Option τ} {f : Frame ι → Frame ι} {wakes : Bool} :
    ((k.partner v f wakes).tasks t).frame =
      if v = some t then f (k.tasks t).frame else (k.tasks t).frame := by
  cases v with
  | none => rfl
  | some v =>
    by_cases ht : t = v
    · subst ht
      simp [Kernel.partner, Kernel.setTask]
    · simp [Kernel.partner, Kernel.setTask, ht, Ne.symm ht]

theorem Kernel.pipes_leave {q : SysPipe τ} {v : Option τ} {f : Frame ι → Frame ι} {wakes : Bool}
    {o : Outcome} {frame : Frame ι} :
    (((k.setPipe p q).partner v f wakes).leave o frame).pipes = Function.update k.pipes p q := by
  cases v <;> rfl

theorem Kernel.frame_passed {q : SysPipe τ} {v : Option τ} {f : Frame ι → Frame ι} {wakes : Bool}
    {o : Outcome} {frame : Frame ι} (ht : t ≠ k.current) :
    ((((k.setPipe p q).partner v f wakes).leave o frame).tasks t).frame =
      if v = some t then f (k.tasks t).frame else (k.tasks t).frame := by
  have hc : ((k.setPipe p q).partner v f wakes).current = k.current := current_partner
  rw [Kernel.leave, hc]
  simp only [Kernel.setTask, Function.update_of_ne ht]
  exact frame_partner

theorem Kernel.frame_current_passed {q : SysPipe τ} {v : Option τ} {f : Frame ι → Frame ι}
    {wakes : Bool} {o : Outcome} {frame : Frame ι} (hd : ∀ n, o ≠ .done n)
    (he : ∀ n, o ≠ .exits n) :
    ((((k.setPipe p q).partner v f wakes).leave o frame).tasks k.current).frame = frame := by
  have hc : ((k.setPipe p q).partner v f wakes).current = k.current := current_partner
  rw [Kernel.leave, hc]
  simp only [Kernel.setTask, Function.update_self]
  exact Task.frame_leave hd he

theorem Kernel.halted_leave {q : SysPipe τ} {v : Option τ} {f : Frame ι → Frame ι}
    {wakes : Bool} {n : Nat} {frame : Frame ι} :
    (((k.setPipe p q).partner v f wakes).leave (.exits n) frame).Halted := by
  refine ⟨k.current, ?_⟩
  have hc : ((k.setPipe p q).partner v f wakes).current = k.current := current_partner
  rw [Kernel.leave, hc]
  simp [Kernel.setTask, Task.leave]

theorem Kernel.Owned.readPass (h : k.Owned) {fresh : Bool} {dst : List (BitVec 8)} {nleft : Nat}
    (hf : (k.tasks k.current).frame = .reading p fresh dst nleft) :
    (k.readPass p dst nleft).Halted ∨ (k.readPass p dst nleft).Owned := by
  unfold Kernel.readPass
  dsimp only
  generalize hs : Reading.pass _ = r
  have hrel : (k.pipes p).Releases r.1.pipe := by
    subst hs
    exact releases_reading_pass
  have hdone : ∀ n, r.2 = .done n → r.1.pipe.mRdtask = .none := by
    subst hs
    exact fun _ => reading_pass_done
  obtain ⟨r, o⟩ := r
  by_cases he : ∃ n, o = .exits n
  · obtain ⟨n, rfl⟩ := he
    exact .inl halted_leave
  right
  push Not at he
  refine h.passed hrel pipes_leave ?_ ?_ ?_ ?_
  · intro t p' fresh dst n ht hfr _ hn
    rw [frame_passed ht, hfr]
    exact ⟨dst, n, by simp [Frame.offer], hn⟩
  · intro t p' fresh src ht hfr
    rw [frame_passed ht, hfr]
    cases fresh <;> split_ifs <;> exact ⟨_, rfl⟩
  · intro p' fresh' dst' n hfr ht
    obtain ⟨rfl, -⟩ : p = p' ∧ _ := by simpa using hf.symm.trans hfr
    refine ⟨r.dst, r.nleft, frame_current_passed (fun n ho => ?_) he⟩
    rw [pipes_leave, Function.update_self, hdone n ho] at ht
    cases ht
  · intro p' fresh' src hfr
    simp [hf] at hfr

theorem Kernel.Owned.writePass (h : k.Owned) {fresh : Bool} {src : List (BitVec 8)}
    (hf : (k.tasks k.current).frame = .writing p fresh src) : (k.writePass p src).Owned := by
  unfold Kernel.writePass
  dsimp only
  generalize hs : Writing.pass _ = r
  have hrel : (k.pipes p).Releases r.1.pipe := by
    subst hs
    exact releases_writing_pass
  have hdone : ∀ n, r.2 = .done n → r.1.pipe.mWrtask = none := by
    subst hs
    exact fun _ => writing_pass_done
  have he : ∀ n, r.2 ≠ .exits n := by
    subst hs
    exact fun _ => writing_pass_not_exits
  have hwant : ∀ t, r.1.pipe.mRdtask = .task t → 0 < r.1.want := by
    subst hs
    exact fun _ => writing_pass_want
  obtain ⟨r, o⟩ := r
  refine h.passed hrel pipes_leave ?_ ?_ ?_ ?_
  · intro t p' fresh dst n ht hfr hrd hn
    rw [frame_passed ht, hfr]
    split_ifs with hv
    · -- the reader this pass serves: it still owns the end of `p`
      cases fresh with
      | false => exact ⟨dst, n, rfl, by simp⟩
      | true =>
        refine ⟨r.dst, r.want, rfl, fun _ => ?_⟩
        have hp : (k.pipes p).mRdtask = .task t := by
          cases hk : (k.pipes p).mRdtask <;> simp_all [ReadTask.toOption]
        obtain ⟨_, _, _, hfr', -⟩ := (h p).1 t hp
        obtain ⟨rfl, -⟩ : p = p' ∧ _ := by simpa using hfr'.symm.trans hfr
        rw [pipes_leave, Function.update_self] at hrd
        exact hwant t hrd
    · exact ⟨dst, n, rfl, hn⟩
  · intro t p' fresh src ht hfr
    rw [frame_passed ht, hfr]
    exact ⟨src, by simp [Frame.want]⟩
  · intro p' fresh' dst n hfr
    simp [hf] at hfr
  · intro p' fresh' src' hfr ht
    obtain ⟨rfl, -⟩ : p = p' ∧ _ := by simpa using hf.symm.trans hfr
    refine ⟨r.src, frame_current_passed (fun n ho => ?_) he⟩
    rw [pipes_leave, Function.update_self, hdone n ho] at ht
    cases ht

theorem Kernel.Owned.pass (h : k.Owned) : k.pass.Halted ∨ k.pass.Owned := by
  unfold Kernel.pass
  split
  next p dst hf =>
    have hother : ∀ t, t ≠ k.current →
        ((k.leave (.done (k.pipes p).mNread) .own).tasks t).frame = (k.tasks t).frame := by
      intro t ht
      simp [Kernel.leave, Kernel.setTask, ht]
    refine .inr fun p' => ⟨fun t ht => ?_, fun t ht => ?_⟩
    · obtain ⟨fresh, dst, n, hfr, hn⟩ := (h p').1 t ht
      by_cases hc : t = k.current
      · -- a reader that a writer has served owns no end
        subst hc
        obtain ⟨-, rfl, -, rfl⟩ : _ ∧ true = fresh ∧ _ ∧ 0 = n := by simpa using hf.symm.trans hfr
        simp at hn
      · exact ⟨fresh, dst, n, (hother t hc).trans hfr, hn⟩
    · obtain ⟨fresh, src, hfr⟩ := (h p').2 t ht
      have hc : t ≠ k.current := by
        rintro rfl
        simp [hf] at hfr
      exact ⟨fresh, src, (hother t hc).trans hfr⟩
  next hf => exact h.readPass hf
  next hf => exact .inr (h.writePass hf)
  · exact .inr h

theorem Kernel.Owned.next (h : k.Owned) {e : Kernel.Event τ ι} (he : k.Enabled e) :
    (k.next e).Halted ∨ (k.next e).Owned := by
  have hwake : ∀ p (q : SysPipe τ) v, (k.pipes p).Releases q → ((k.setPipe p q).wake v).Owned := by
    intro p q v hq
    refine h.mono (fun p' => ?_) fun t => .inl frame_wake
    rw [pipes_wake]
    by_cases hp : p' = p
    · subst hp
      simpa [Kernel.setPipe] using hq
    · simpa [Kernel.setPipe, hp] using SysPipe.Releases.refl
  have hpop : ∀ p n, (k.pipes p).Releases (kpopSyspipe (k.pipes p) n).1 := by
    intro p n
    unfold kpopSyspipe
    split_ifs
    · exact ⟨fun _ h => h, fun _ h => h⟩
    · exact .refl
  have hpush : ∀ p val, (k.pipes p).Releases (kpushSyspipe (k.pipes p) val).1 := by
    intro p val
    simp only [kpushSyspipe]
    split_ifs
    · exact ⟨fun _ h => h, fun _ h => h⟩
    · exact ⟨fun _ h => h, fun _ h => h⟩
  cases e with
  | post events => exact .inr (h.mono (fun _ => .refl) fun t => .inl Task.frame_post)
  | push p val => exact .inr (hwake p _ _ (hpush p val))
  | pop p => exact .inr (hwake p _ _ (hpop p 1))
  | popShort p => exact .inr (hwake p _ _ (hpop p 2))
  | trap tr => exact .inr (h.trap (by simpa using he.2.1))
  | pass => exact h.pass
  | schedule t => exact .inr h

end

/-- Until a task exits, ends belong to tasks in calls on their pipe. -/
theorem Kernel.Owned.reachable [DecidableEq τ] [DecidableEq ι]
    {C : Kernel τ ι → Kernel.Event τ ι → Prop} (h : (halting.restrict C).Reachable k) :
    k.Halted ∨ k.Owned := by
  refine h.invariant (P := fun k => k.Halted ∨ k.Owned) ?_ ?_
  · rintro k ⟨-, hp⟩
    exact .inr (.init hp)
  · rintro k e (hk | hk) ha
    · exact absurd hk ha.1.2
    · exact hk.next ha.1.1

theorem kread_wakes {q : SysPipe τ} {w : τ} {len : Int} {valid : Bool}
    (h : (kreadSyspipe q w len valid).wakes = some u) : q.mWrtask = some u := by
  unfold kreadSyspipe at h
  split at h
  · split_ifs at h
    · simp [refuse] at h
    · simp [refuse] at h
    · simp [refuse] at h
    · dsimp only at h
      split at h
      next hw => exact hw.trans h
      · cases h
  · simp [refuse] at h

theorem kwrite_wakes {q : SysPipe τ} {w : τ} {len : Int} {valid : Bool}
    (h : (kwriteSyspipe q w len valid).wakes = some u) : q.mRdtask = .task u := by
  unfold kwriteSyspipe at h
  split at h
  · split_ifs at h
    · simp [refuse] at h
    · simp [refuse] at h
    · dsimp only at h
      split at h
      next hr => exact hr.trans (congrArg ReadTask.task (Option.some.inj h))
      · cases h
  · simp [refuse] at h

theorem kpush_wakes {q : SysPipe τ} {val : BitVec 8} (h : (kpushSyspipe q val).2 = some u) :
    q.mRdtask = .task u := by
  simp only [kpushSyspipe] at h
  split_ifs at h
  · dsimp only at h
    split at h
    next hr => exact hr.trans (congrArg ReadTask.task (Option.some.inj h))
    · cases h

theorem kpop_wakes {q : SysPipe τ} {n : Nat} (h : (kpopSyspipe q n).2 = some u) :
    q.mWrtask = some u := by
  unfold kpopSyspipe at h
  split_ifs at h
  exact h

theorem toOption_eq_some {r : ReadTask τ} (h : r.toOption = some u) : r = .task u := by
  cases r with
  | task w => exact congrArg ReadTask.task (Option.some.inj h)
  | none => cases h
  | interrupt => cases h

section
variable [DecidableEq τ]

theorem Kernel.tasks_wake_of_ne {w : Option τ} (hw : w ≠ some u) :
    (k.wake w).tasks u = k.tasks u := by
  cases w with
  | none => rfl
  | some w =>
    have : u ≠ w := fun he => hw (congrArg some he.symm)
    simp [Kernel.wake, Kernel.setTask, this]

theorem Kernel.tasks_partner_of_ne {w : Option τ} {f : Frame ι → Frame ι} {wakes : Bool}
    (hw : w ≠ some u) : (k.partner w f wakes).tasks u = k.tasks u := by
  cases w with
  | none => rfl
  | some w =>
    have : u ≠ w := fun he => hw (congrArg some he.symm)
    simp [Kernel.partner, Kernel.setTask, this]

variable [DecidableEq ι]

theorem Kernel.tasks_passed_of_ne {q : SysPipe τ} {w : Option τ} {f : Frame ι → Frame ι}
    {wakes : Bool} {o : Outcome} {frame : Frame ι} (hu : u ≠ k.current) (hw : w ≠ some u) :
    (((k.setPipe p q).partner w f wakes).leave o frame).tasks u = k.tasks u := by
  have hc : ((k.setPipe p q).partner w f wakes).current = k.current := current_partner
  rw [Kernel.leave, hc]
  simp only [Kernel.setTask, Function.update_of_ne hu]
  exact tasks_partner_of_ne hw

theorem Kernel.tasks_trap_of_ne {tr : Trap} (hu : u ≠ k.current)
    (hrd : ∀ p, (k.pipes p).mRdtask ≠ .task u) (hwr : ∀ p, (k.pipes p).mWrtask ≠ some u)
    (hp : ∀ events, tr ≠ .post events) : (k.trap tr).tasks u = k.tasks u := by
  have hset : ∀ f, (k.setTask k.current f).tasks u = k.tasks u := by
    intro f
    simp [Kernel.setTask, hu]
  have henter : ∀ p (r : Reply τ) frame, r.wakes ≠ some u →
      (k.enter p r frame).tasks u = k.tasks u := by
    intro p r frame hw
    rw [Kernel.enter, tasks_wake_of_ne hw]
    simp [Kernel.setTask, Kernel.setPipe, hu]
  cases tr with
  | post events => exact absurd rfl (hp events)
  | yield => rfl
  | read fd dst len =>
    simp only [Kernel.trap]
    split
    · exact hset _
    · exact henter _ _ _ fun h => hwr _ (kread_wakes h)
  | write fd src len bytes =>
    simp only [Kernel.trap]
    split
    · exact hset _
    · exact henter _ _ _ fun h => hrd _ (kwrite_wakes h)
  | exit => exact hset fun t => { t with state := .exit, frame := .own }
  | _ =>
    simp only [Kernel.trap]
    exact hset _

/-- Nothing but `kpost` touches a task that is not ready and at no pipe's end. -/
theorem Kernel.tasks_next_of_ne {e : Kernel.Event τ ι} (he : k.Enabled e)
    (hu : (k.tasks u).state ≠ .ready) (hrd : ∀ p, (k.pipes p).mRdtask ≠ .task u)
    (hwr : ∀ p, (k.pipes p).mWrtask ≠ some u) (hp : ∀ events, e ≠ .post events)
    (htp : ∀ events, e ≠ .trap (.post events)) : (k.next e).tasks u = k.tasks u := by
  have hcur : (k.tasks k.current).state = .ready → u ≠ k.current := by
    rintro hc rfl
    exact hu hc
  cases e with
  | post events => exact absurd rfl (hp events)
  | push p val => exact tasks_wake_of_ne fun h => hrd _ (kpush_wakes h)
  | pop p => exact tasks_wake_of_ne fun h => hwr _ (kpop_wakes h)
  | popShort p => exact tasks_wake_of_ne fun h => hwr _ (kpop_wakes h)
  | trap tr =>
    refine tasks_trap_of_ne (hcur he.1) hrd hwr ?_
    rintro events rfl
    exact htp events rfl
  | pass =>
    have hu := hcur he.1
    simp only [Kernel.next]
    unfold Kernel.pass
    split
    · simp [Kernel.leave, Kernel.setTask, hu]
    · exact tasks_passed_of_ne hu (hwr _)
    · exact tasks_passed_of_ne hu fun h => hrd _ (toOption_eq_some h)
    · rfl
  | schedule t => rfl

end

end S6Soc.ZipOS
