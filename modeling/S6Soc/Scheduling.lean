import Mathlib.Order.Interval.Set.Basic
import Mathlib.Tactic.ByContra
import Mathlib.Tactic.Set
import Mathlib.Tactic.SplitIfs
import S6Soc.Kernel

/-! Which task the kernel runs next, and in which order tasks get their turns. -/
namespace S6Soc.ZipOS

variable {τ ι : Type} [DecidableEq τ]

/-- `tasklist[0..LAST_TASK]`, each task once, the idle task last. -/
structure TaskList (τ : Type) where
  lastTask : ℕ
  tasklist : ℕ → τ
  distinct {i j : ℕ} : i ≤ lastTask → j ≤ lastTask → tasklist i = tasklist j → i = j

def TaskList.idle (l : TaskList τ) : τ := l.tasklist l.lastTask

/-- Where a loop over `i`, `i + 1`, ... stops: at the first index that satisfies `p`, or after
`n` of them. -/
def search (p : ℕ → Bool) (i : ℕ) : ℕ → ℕ
  | 0 => i
  | n + 1 => if p i then i else search p (i + 1) n

/-- `ready` tells which tasks are in state `SCHED_READY`. -/
def kschedule (l : TaskList τ) (ready : τ → Bool) (last : τ) : τ :=
  -- What task were we just running?
  let i := search (fun i => last == l.tasklist i) 0 (l.lastTask + 1)
  let nxtid := if i ≤ l.lastTask then i + 1 else 0
  let nxtid := search (fun i => ready (l.tasklist i)) nxtid (l.lastTask - nxtid)
  if l.lastTask ≤ nxtid then
    l.tasklist (search (fun i => ready (l.tasklist i)) 0 l.lastTask)
  else l.tasklist nxtid

/-- What a pass of `kernel_entry` finds at its end: which tasks are ready, and whether it was
asked to reschedule. -/
structure Pass (τ : Type) where
  ready : τ → Bool
  needResched : Bool

def TaskList.reschedules (l : TaskList τ) (current : τ) (p : Pass τ) : Bool :=
  p.needResched || !p.ready current || current == l.idle

def TaskList.next (l : TaskList τ) (current : τ) (p : Pass τ) : τ :=
  if l.reschedules current p then kschedule l p.ready current else current

/-- The running task before each pass. -/
def TaskList.run (l : TaskList τ) (current : τ) (passes : ℕ → Pass τ) : ℕ → τ
  | 0 => current
  | n + 1 => l.next (l.run current passes n) (passes n)

/-- Pass `n` selects the task `t`. -/
def TaskList.Selects (l : TaskList τ) (current : τ) (passes : ℕ → Pass τ) (n : ℕ) (t : τ) : Prop :=
  l.reschedules (l.run current passes n) (passes n) ∧ l.run current passes (n + 1) = t

/-- How far the index `j` comes after `i` on the circle of all tasks; `i` itself comes last. -/
def TaskList.distance (l : TaskList τ) (i j : ℕ) : ℕ :=
  if i < j then j - i else j + (l.lastTask + 1) - i

/-- The index `k` is the first ready one after `i`, the idle task left out, or that of the idle
task if none is ready. -/
def TaskList.FirstReady (l : TaskList τ) (ready : τ → Bool) (i k : ℕ) : Prop :=
  (k < l.lastTask ∧ ready (l.tasklist k) ∧
    ∀ j < l.lastTask, ready (l.tasklist j) → l.distance i k ≤ l.distance i j) ∨
  k = l.lastTask ∧ ∀ j < l.lastTask, ready (l.tasklist j) = false

variable {p : ℕ → Bool} {i j k n : ℕ} {l : TaskList τ} {ready : τ → Bool} {last : τ}

theorem search_spec (p : ℕ → Bool) (i n : ℕ) : i ≤ search p i n ∧ search p i n ≤ i + n ∧
    (∀ j, i ≤ j → j < search p i n → p j = false) ∧
    (search p i n < i + n → p (search p i n) = true) := by
  induction n generalizing i with
  | zero =>
    rw [search]
    exact ⟨i.le_refl, i.le_refl, fun j _ _ => by omega, fun h => by omega⟩
  | succ n ih =>
    obtain ⟨h1, h2, h3, h4⟩ := ih (i + 1)
    rw [search]
    cases hp : p i with
    | true =>
      rw [if_pos rfl]
      exact ⟨i.le_refl, by omega, fun j _ _ => by omega, fun _ => hp⟩
    | false =>
      rw [if_neg (by decide)]
      refine ⟨by omega, by omega, fun j hj hlt => ?_, fun h => h4 (by omega)⟩
      obtain rfl | hj := Nat.eq_or_lt_of_le hj
      · exact hp
      · exact h3 j hj hlt

/-- The first loop finds the task that ran last. -/
theorem search_last (hi : i ≤ l.lastTask) (h : last = l.tasklist i) :
    search (fun i => last == l.tasklist i) 0 (l.lastTask + 1) = i := by
  obtain ⟨-, h2, h3, h4⟩ := search_spec (fun i => last == l.tasklist i) 0 (l.lastTask + 1)
  set k := search (fun i => last == l.tasklist i) 0 (l.lastTask + 1)
  have hk : k ≤ i := by
    by_contra hk
    have := h3 i (Nat.zero_le i) (by omega)
    simp [h] at this
  have := h4 (by omega)
  rw [beq_iff_eq, h] at this
  exact (l.distinct hi (by omega) this).symm

/-- The task selected is the first ready one after the last, on the circle of all tasks. -/
theorem kschedule_firstReady (ready : τ → Bool) (hi : i ≤ l.lastTask) (h : last = l.tasklist i) :
    ∃ k ≤ l.lastTask, kschedule l ready last = l.tasklist k ∧ l.FirstReady ready i k := by
  obtain ⟨h1, h2, h3, h4⟩ :=
    search_spec (fun i => ready (l.tasklist i)) (i + 1) (l.lastTask - (i + 1))
  obtain ⟨-, w2, w3, w4⟩ := search_spec (fun i => ready (l.tasklist i)) 0 l.lastTask
  rw [kschedule, search_last hi h, if_pos hi]
  set k := search (fun i => ready (l.tasklist i)) (i + 1) (l.lastTask - (i + 1))
  set w := search (fun i => ready (l.tasklist i)) 0 l.lastTask
  split
  · -- Nothing is ready behind `i`: the search starts again at the front.
    refine ⟨w, by omega, rfl, ?_⟩
    obtain hw | hw : w < l.lastTask ∨ w = l.lastTask := by omega
    · refine .inl ⟨hw, w4 (by omega), fun j hj hr => ?_⟩
      have hji : j ≤ i := by
        by_contra hji
        exact absurd hr (by simp [h3 j (by omega) (by omega)])
      have hwj : w ≤ j := by
        by_contra hwj
        exact absurd hr (by simp [w3 j j.zero_le (by omega)])
      rw [TaskList.distance, TaskList.distance, if_neg (by omega), if_neg (by omega)]
      omega
    · exact .inr ⟨hw, fun j hj => w3 j j.zero_le (by omega)⟩
  · refine ⟨k, by omega, rfl, .inl ⟨by omega, h4 (by omega), fun j hj hr => ?_⟩⟩
    rw [TaskList.distance, TaskList.distance, if_pos (by omega)]
    split
    · by_contra hjk
      exact absurd hr (by simp [h3 j (by omega) (by omega)])
    · omega

variable {t u : τ} {a m c : ℕ} {passes : ℕ → Pass τ} {current : τ} {q : Pass τ}

omit [DecidableEq τ] in
/-- On the way to `a`, each turn is nearer. -/
theorem distance_lt (hi : i ≤ l.lastTask) (hk : k ≤ l.lastTask) (ha : a ≤ l.lastTask)
    (h : l.distance i k ≤ l.distance i a) (hne : k ≠ a) : l.distance k a < l.distance i a := by
  rw [TaskList.distance, TaskList.distance] at h ⊢
  split_ifs at h ⊢ <;> omega

/-- The task runs that has index `i`. -/
def TaskList.At (l : TaskList τ) (i : ℕ) (t : τ) : Prop := i ≤ l.lastTask ∧ t = l.tasklist i

/-- While the task of index `a` is ready, each selection of another task is of one nearer
to it. -/
theorem next_nearer (ha : a < l.lastTask) (hr : q.ready (l.tasklist a)) (hi : l.At i current)
    (hs : l.reschedules current q) :
    ∃ k, l.At k (l.next current q) ∧ (k = a ∨ l.distance k a < l.distance i a) := by
  obtain ⟨k, hk, heq, hf⟩ := kschedule_firstReady q.ready hi.1 hi.2
  refine ⟨k, ⟨hk, by rw [TaskList.next, if_pos hs, heq]⟩, ?_⟩
  obtain ⟨hkl, -, hmin⟩ | ⟨-, hnone⟩ := hf
  · by_cases hka : k = a
    · exact .inl hka
    · exact .inr (distance_lt hi.1 hk (by omega) (hmin a ha hr) hka)
  · exact absurd hr (by simp [hnone a ha])

/-- Between two selections of `t`, the distance to it falls with every selection and rises
never. -/
theorem run_nearer (ha : a < l.lastTask) (hmc : m ≤ c) (hi : l.At i (l.run current passes m))
    (hr : ∀ n, m ≤ n → n < c → (passes n).ready (l.tasklist a))
    (hnot : ∀ n, m ≤ n → n < c → ¬ l.Selects current passes n (l.tasklist a)) :
    ∃ k, l.At k (l.run current passes c) ∧ l.distance k a ≤ l.distance i a ∧
      ((∃ n, m ≤ n ∧ n < c ∧ l.reschedules (l.run current passes n) (passes n)) →
        l.distance k a < l.distance i a) := by
  induction c, hmc using Nat.le_induction with
  | base => exact ⟨i, hi, Nat.le_refl _, fun ⟨n, h1, h2, _⟩ => by omega⟩
  | succ c hmc ih =>
    obtain ⟨k, hk, hle, hlt⟩ := ih (fun n h1 h2 => hr n h1 (by omega))
      (fun n h1 h2 => hnot n h1 (by omega))
    cases hs : l.reschedules (l.run current passes c) (passes c) with
    | true =>
      obtain ⟨k', hk', hn⟩ := next_nearer ha (hr c hmc (by omega)) hk hs
      have hne : k' ≠ a := by
        rintro rfl
        exact hnot c hmc (by omega) ⟨hs, hk'.2⟩
      have := hn.resolve_left hne
      exact ⟨k', hk', by omega, fun _ => by omega⟩
    | false =>
      refine ⟨k, ?_, hle, ?_⟩
      · rw [TaskList.run, TaskList.next, hs]
        exact hk
      · rintro ⟨n, h1, h2, h3⟩
        refine hlt ⟨n, h1, ?_, h3⟩
        by_contra hnc
        obtain rfl : n = c := by omega
        exact absurd h3 (by simp [hs])

theorem run_mem (passes : ℕ → Pass τ) (h : ∃ i, l.At i current) (n : ℕ) :
    ∃ i, l.At i (l.run current passes n) := by
  induction n with
  | zero => exact h
  | succ n ih =>
    obtain ⟨i, hi⟩ := ih
    rw [TaskList.run, TaskList.next]
    split
    · obtain ⟨k, hk, heq, -⟩ := kschedule_firstReady (passes n).ready hi.1 hi.2
      exact ⟨k, hk, heq⟩
    · exact ⟨i, hi⟩

/-- A task selected twice before the next turn of a ready task would have to be nearer to it
than itself. -/
theorem selected_once (h : ∃ i, l.At i current) (ha : a < l.lastTask)
    (hr : ∀ n, m < n → n ≤ c → (passes n).ready (l.tasklist a))
    (hnot : ∀ n, m < n → n ≤ c → ¬ l.Selects current passes n (l.tasklist a))
    (hm : l.Selects current passes m u) (hc : l.Selects current passes c u) : c ≤ m := by
  by_contra hmc
  obtain ⟨i, hi⟩ := run_mem passes h (m + 1)
  obtain ⟨k, hk, -, hlt⟩ := run_nearer (c := c + 1) ha (by omega) hi
    (fun n h1 h2 => hr n (by omega) (by omega)) fun n h1 h2 => hnot n (by omega) (by omega)
  have hki : k = i := by
    rw [hm.2] at hi
    rw [hc.2] at hk
    exact l.distinct hk.1 hi.1 (hk.2.symm.trans hi.2)
  have := hlt ⟨c, by omega, by omega, hc.1⟩
  rw [hki] at this
  exact absurd this (Nat.lt_irrefl _)

/-- The order of turns: the first ready task after the last one, and between two turns of a
task that stays ready no other has two. -/
theorem turns (l : TaskList τ) :
    (∀ ready last i, l.At i last →
      ∃ k, l.At k (kschedule l ready last) ∧ l.FirstReady ready i k) ∧
    ∀ current passes a, (∃ i, l.At i current) → a < l.lastTask → ∀ b c, b < c →
      l.Selects current passes b (l.tasklist a) → l.Selects current passes c (l.tasklist a) →
      (∀ n, b < n → n < c → ¬ l.Selects current passes n (l.tasklist a)) →
      (∀ n, b < n → n ≤ c → (passes n).ready (l.tasklist a)) →
      ∀ u m n, b < m → m < c → b < n → n < c →
        l.Selects current passes m u → l.Selects current passes n u → m = n := by
  refine ⟨fun ready last i hi => ?_, ?_⟩
  · obtain ⟨k, hk, heq, hf⟩ := kschedule_firstReady ready hi.1 hi.2
    exact ⟨k, ⟨hk, heq⟩, hf⟩
  · intro current passes a h ha b c _ _ _ hnot hr u m n hbm hmc hbn hnc hm hn
    have hle : n ≤ m := selected_once h ha (fun j h1 h2 => hr j (by omega) (by omega))
      (fun j h1 h2 => hnot j (by omega) (by omega)) hm hn
    have hge : m ≤ n := selected_once h ha (fun j h1 h2 => hr j (by omega) (by omega))
      (fun j h1 h2 => hnot j (by omega) (by omega)) hn hm
    exact Nat.le_antisymm hge hle

/-- Three tasks and the idle one. -/
def threeTasks : TaskList ℕ := ⟨3, id, fun _ _ h => h⟩

/-- Task 1 sleeps through pass 4, and all others are ready. -/
def asleepOnce (n : ℕ) : Pass ℕ := ⟨fun t => t != 1 || n != 4, true⟩

/-- Task 0 has its turn in pass 2 and again in pass 5. -/
theorem turns_threeTasks : threeTasks.Selects 0 asleepOnce 2 0 ∧
    threeTasks.Selects 0 asleepOnce 5 0 ∧
    ∀ u m n, 2 < m → m < 5 → 2 < n → n < 5 → threeTasks.Selects 0 asleepOnce m u →
      threeTasks.Selects 0 asleepOnce n u → m = n := by
  have h₂ : threeTasks.Selects 0 asleepOnce 2 (threeTasks.tasklist 0) := by
    unfold TaskList.Selects
    decide
  have h₅ : threeTasks.Selects 0 asleepOnce 5 (threeTasks.tasklist 0) := by
    unfold TaskList.Selects
    decide
  refine ⟨h₂, h₅, (turns threeTasks).2 0 asleepOnce 0 ⟨0, Nat.zero_le _, rfl⟩ (by decide) 2 5
    (by decide) h₂ h₅ ?_ fun n _ _ => rfl⟩
  intro n hb hc
  have hn : n = 3 ∨ n = 4 := by omega
  rcases hn with rfl | rfl
  · unfold TaskList.Selects
    decide
  · unfold TaskList.Selects
    decide

/-- A task and the idle one. -/
def oneTask : TaskList ℕ := ⟨1, id, fun _ _ h => h⟩

/-- The task is ready in passes 1 and 2, the idle task always. -/
def readyTwice (n : ℕ) : Pass ℕ := ⟨fun t => t == 1 || n == 1 || n == 2, true⟩

/-- The idle task, though always ready, has to wait for two turns of one task. -/
theorem idle_waits : ¬ ∀ (l : TaskList ℕ) current passes a, (∃ i, l.At i current) →
    a ≤ l.lastTask → ∀ b c, b < c →
      l.Selects current passes b (l.tasklist a) → l.Selects current passes c (l.tasklist a) →
      (∀ n, b < n → n < c → ¬ l.Selects current passes n (l.tasklist a)) →
      (∀ n, b < n → n ≤ c → (passes n).ready (l.tasklist a)) →
      ∀ u m n, b < m → m < c → b < n → n < c →
        l.Selects current passes m u → l.Selects current passes n u → m = n := by
  intro h
  have hsel (n u : ℕ) (hu : oneTask.run 1 readyTwice (n + 1) = u) :
      oneTask.Selects 1 readyTwice n u := ⟨by simp [TaskList.reschedules, readyTwice], hu⟩
  have hnot (n : ℕ) (hn : oneTask.run 1 readyTwice (n + 1) = 0) :
      ¬ oneTask.Selects 1 readyTwice n (oneTask.tasklist 1) :=
    fun hs => absurd (hn.symm.trans hs.2) (by decide)
  have htwice := h oneTask 1 readyTwice 1 ⟨1, Nat.le_refl _, rfl⟩ (Nat.le_refl _) 0 3 (by decide)
    (hsel 0 _ (by decide)) (hsel 3 _ (by decide)) (fun n hb hc => ?_) (fun n _ _ => rfl) 0 1 2
    (by decide) (by decide) (by decide) (by decide) (hsel 1 0 (by decide)) (hsel 2 0 (by decide))
  · exact absurd htwice (by decide)
  · have hn : n = 1 ∨ n = 2 := by omega
    rcases hn with rfl | rfl
    · exact hnot 1 (by decide)
    · exact hnot 2 (by decide)

/-- The kernel may schedule what `kschedule` selects, the idle task being always ready. -/
theorem enabled_kschedule {k : Kernel τ ι} (hidle : l.idle = k.idle)
    (hr : (k.tasks k.idle).state = .ready) (hc : l.At i k.current)
    (hs : l.reschedules k.current ⟨fun t => decide ((k.tasks t).state = .ready), k.needResched⟩) :
    k.Enabled (.schedule
      (kschedule l (fun t => decide ((k.tasks t).state = .ready)) k.current)) := by
  refine ⟨?_, ?_⟩
  · obtain ⟨j, hj, heq, ⟨-, hready, -⟩ | ⟨rfl, -⟩⟩ := kschedule_firstReady
      (fun t => decide ((k.tasks t).state = .ready)) hc.1 hc.2
    · rw [heq]
      exact of_decide_eq_true hready
    · rw [heq]
      change (k.tasks l.idle).state = _
      rw [hidle, hr]
  · rw [TaskList.reschedules, Bool.or_eq_true, Bool.or_eq_true] at hs
    obtain (hs | hs) | hs := hs
    · exact .inl hs
    · exact .inr (.inl (by simpa using hs))
    · exact .inr (.inr (by simpa [hidle] using hs))

end S6Soc.ZipOS
