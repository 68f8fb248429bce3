import Mathlib.Data.List.Basic
import Mathlib.Logic.Function.Basic

/-! Clocked systems: a register state, the inputs a clock may present, and the
state after the clock. Inputs are chosen freely within `allowed`, so a run ranges
over every schedule of the surroundings. -/
namespace S6Soc.Clocked

universe u v

structure System (σ : Type u) (ι : Type v) where
  init : σ → Prop
  allowed : σ → ι → Prop
  next : σ → ι → σ

variable {σ : Type u} {ι : Type v}

/-- `M.Run s is t`: the inputs `is`, oldest first, drive `s` to `t`. -/
inductive System.Run (M : System σ ι) (s : σ) : List ι → σ → Prop
  | nil : Run M s [] s
  | snoc {is t i} : Run M s is t → M.allowed t i → Run M s (is ++ [i]) (M.next t i)

def System.Reachable (M : System σ ι) (t : σ) : Prop :=
  ∃ s is, M.init s ∧ M.Run s is t

/-- The system whose steps also meet `C`. -/
def System.restrict (M : System σ ι) (C : σ → ι → Prop) : System σ ι where
  init := M.init
  allowed s i := M.allowed s i ∧ C s i
  next := M.next

variable {M : System σ ι} {s t : σ} {i : ι} {is : List ι} {P : σ → Prop}

/-- The inputs `is` are allowed, one clock after the other, from `s` on. -/
def System.Admits (M : System σ ι) (s : σ) : List ι → Prop
  | [] => True
  | i :: is => M.allowed s i ∧ Admits M (M.next s i) is

instance System.decidableAdmits (M : System σ ι) [∀ s i, Decidable (M.allowed s i)] (s : σ) :
    (is : List ι) → Decidable (M.Admits s is)
  | [] => .isTrue trivial
  | i :: is => @instDecidableAnd _ _ _ (M.decidableAdmits (M.next s i) is)

theorem System.admits_of_free (h : ∀ s i, M.allowed s i) (is : List ι) : M.Admits s is := by
  induction is generalizing s with
  | nil => trivial
  | cons i is ih => exact ⟨h s i, ih⟩

theorem System.reachable_init (h : M.init s) : M.Reachable s := ⟨s, [], h, .nil⟩

theorem System.Reachable.step (h : M.Reachable s) (hi : M.allowed s i) :
    M.Reachable (M.next s i) := by
  obtain ⟨s₀, is, h₀, hr⟩ := h
  exact ⟨s₀, is ++ [i], h₀, hr.snoc hi⟩

theorem System.Reachable.foldl (h : M.Reachable s) (ha : M.Admits s is) :
    M.Reachable (is.foldl M.next s) := by
  induction is generalizing s with
  | nil => exact h
  | cons i is ih => exact ih (h.step ha.1) ha.2

/-- What holds at the start of a run and survives every clock holds at its end. -/
theorem System.Run.invariant (hr : M.Run s is t) (h₀ : P s)
    (hs : ∀ u i, P u → M.allowed u i → P (M.next u i)) : P t := by
  induction hr with
  | nil => exact h₀
  | snoc _ ha ih => exact hs _ _ ih ha

theorem System.Reachable.invariant (h : M.Reachable t) (h₀ : ∀ s, M.init s → P s)
    (hs : ∀ u i, P u → M.allowed u i → P (M.next u i)) : P t := by
  obtain ⟨s, is, hi, hr⟩ := h
  exact hr.invariant (h₀ s hi) hs

end S6Soc.Clocked
