import Mathlib.Data.Nat.Init

/-! Routines written in assembly: lines that may be labels, operations on some state, jumps and
returns, run one at a time. Rules take a run from line to line. -/
namespace S6Soc.Assembly

universe u v w x

inductive Line (ο : Type u) (κ : Type v) (ι : Type w)
  | label (l : ι)
  | op (o : ο)
  | jump (c : κ) (l : ι)
  | ret (c : κ)

structure Machine (σ : Type x) (ο : Type u) (κ : Type v) where
  exec : ο → σ → σ
  holds : κ → σ → Bool

/-- Which line comes next, what the routine works on, and whether it has returned. -/
structure State (σ : Type x) where
  line : ℕ
  core : σ
  returned : Bool

variable {σ : Type x} {ο : Type u} {κ : Type v} {ι : Type w} [DecidableEq ι]

def Line.isLabel (l : ι) : Line ο κ ι → Bool
  | .label m => m = l
  | _ => false

/-- Where a label stands. -/
def place (p : List (Line ο κ ι)) (l : ι) : ℕ := p.findIdx (Line.isLabel l)

/-- Off the end of a routine nothing happens. -/
def Machine.step (M : Machine σ ο κ) (p : List (Line ο κ ι)) (s : State σ) : State σ :=
  if s.returned then s
  else
    match p[s.line]? with
    | some (.label _) => { s with line := s.line + 1 }
    | some (.op o) => { s with line := s.line + 1, core := M.exec o s.core }
    | some (.jump c l) => { s with line := if M.holds c s.core then place p l else s.line + 1 }
    | some (.ret c) =>
      if M.holds c s.core then { s with returned := true } else { s with line := s.line + 1 }
    | none => s

def Machine.run (M : Machine σ ο κ) (p : List (Line ο κ ι)) (s : State σ) : ℕ → State σ
  | 0 => s
  | n + 1 => M.step p (M.run p s n)

/-- The operations in turn. -/
def Machine.execs (M : Machine σ ο κ) (os : List ο) (c : σ) : σ :=
  os.foldl (fun c o => M.exec o c) c

/-- From line `a` and state `c` a run comes to line `b` and state `d`. -/
def Machine.Goes (M : Machine σ ο κ) (p : List (Line ο κ ι)) (a : ℕ) (c : σ) (b : ℕ) (d : σ) :
    Prop :=
  ∃ n, M.run p ⟨a, c, false⟩ n = ⟨b, d, false⟩

/-- From line `a` and state `c` a run returns in state `d`. -/
def Machine.Ends (M : Machine σ ο κ) (p : List (Line ο κ ι)) (a : ℕ) (c d : σ) : Prop :=
  ∃ n b, M.run p ⟨a, c, false⟩ n = ⟨b, d, true⟩

variable {M : Machine σ ο κ} {p : List (Line ο κ ι)} {a b e : ℕ} {c d f : σ} {k : κ} {l : ι}

theorem Machine.run_add (s : State σ) (m n : ℕ) :
    M.run p s (m + n) = M.run p (M.run p s m) n := by
  induction n with
  | zero => rfl
  | succ n ih => rw [← Nat.add_assoc, Machine.run, ih, Machine.run]

namespace Machine

theorem Goes.refl : M.Goes p a c a c := ⟨0, rfl⟩

theorem Goes.trans (h : M.Goes p a c b d) (h' : M.Goes p b d e f) : M.Goes p a c e f := by
  obtain ⟨m, hm⟩ := h
  obtain ⟨n, hn⟩ := h'
  exact ⟨m + n, by rw [run_add, hm, hn]⟩

theorem Goes.ends (h : M.Goes p a c b d) (h' : M.Ends p b d f) : M.Ends p a c f := by
  obtain ⟨m, hm⟩ := h
  obtain ⟨n, r, hn⟩ := h'
  exact ⟨m + n, r, by rw [run_add, hm, hn]⟩

theorem goes_label (h : p[a]? = some (.label l)) : M.Goes p a c (a + 1) c := by
  refine ⟨1, ?_⟩
  simp [run, step, h]

theorem goes_op {o : ο} (h : p[a]? = some (.op o)) : M.Goes p a c (a + 1) (M.exec o c) := by
  refine ⟨1, ?_⟩
  simp [run, step, h]

theorem goes_jump (h : p[a]? = some (.jump k l)) (hk : M.holds k c = true) :
    M.Goes p a c (place p l) c := by
  refine ⟨1, ?_⟩
  simp [run, step, h, hk]

theorem goes_on (h : p[a]? = some (.jump k l)) (hk : M.holds k c = false) :
    M.Goes p a c (a + 1) c := by
  refine ⟨1, ?_⟩
  simp [run, step, h, hk]

theorem ends_ret (h : p[a]? = some (.ret k)) (hk : M.holds k c = true) : M.Ends p a c c := by
  refine ⟨1, a, ?_⟩
  simp [run, step, h, hk]

theorem goes_past_ret (h : p[a]? = some (.ret k)) (hk : M.holds k c = false) :
    M.Goes p a c (a + 1) c := by
  refine ⟨1, ?_⟩
  simp [run, step, h, hk]

/-- Operations that follow one another are done one after the other. -/
theorem goes_ops (os : List ο) (h : (p.drop a).take os.length = os.map .op) :
    M.Goes p a c (a + os.length) (M.execs os c) := by
  induction os generalizing a c with
  | nil => exact .refl
  | cons o os ih =>
    cases hp : p.drop a with
    | nil => rw [hp] at h; cases h
    | cons x rest =>
      rw [hp, List.length_cons, List.take_succ_cons, List.map_cons, List.cons.injEq] at h
      obtain ⟨rfl, hr⟩ := h
      have h₀ : p[a]? = some (.op o) := by
        rw [← Nat.add_zero a, ← List.getElem?_drop, hp]
        rfl
      have h₁ : p.drop (a + 1) = rest := by
        rw [← List.drop_drop, hp]
        rfl
      have hg := (goes_op (M := M) (c := c) h₀).trans (ih (a := a + 1) (by rw [h₁]; exact hr))
      rw [List.length_cons, Nat.add_comm os.length 1, ← Nat.add_assoc]
      exact hg

theorem execs_append (os os' : List ο) (c : σ) :
    M.execs (os ++ os') c = M.execs os' (M.execs os c) := List.foldl_append ..

end Machine

end S6Soc.Assembly
