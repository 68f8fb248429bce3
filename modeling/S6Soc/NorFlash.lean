import Mathlib.Data.BitVec
import Mathlib.Tactic.SplitIfs

/-! NOR flash: programming clears bits, and only erasing sets them. Addresses and the width
of a cell are arbitrary. -/
namespace S6Soc.NorFlash

variable {α : Type*} {w : ℕ}

abbrev Memory (α : Type*) (w : ℕ) := α → BitVec w

def erase (f : Memory α w) (P : α → Prop) [DecidablePred P] : Memory α w :=
  fun x => if P x then BitVec.allOnes w else f x

def program (f : Memory α w) (P : α → Prop) [DecidablePred P] (d : Memory α w) : Memory α w :=
  fun x => if P x then f x &&& d x else f x

/-- `d` can be had from `f` without an erase. -/
def Programmable (f d : Memory α w) (P : α → Prop) : Prop := ∀ x, P x → f x &&& d x = d x

/-- Some cells of `P`, if any, have been programmed with `d`. -/
def Programmed (d : Memory α w) (P : α → Prop) (f f' : Memory α w) : Prop :=
  ∀ x, f' x = f x ∨ P x ∧ f' x = f x &&& d x

variable {f f' f'' d : Memory α w} {P Q : α → Prop} {x : α}

theorem Programmed.refl (f : Memory α w) : Programmed d P f f := fun _ => Or.inl rfl

theorem Programmed.trans (h : Programmed d P f f') (h' : Programmed d P f' f'') :
    Programmed d P f f'' := by
  intro x
  rcases h x with hx | ⟨hp, hx⟩ <;> rcases h' x with hy | ⟨hp', hy⟩
  · exact Or.inl (hy.trans hx)
  · exact Or.inr ⟨hp', by rw [hy, hx]⟩
  · exact Or.inr ⟨hp, hy.trans hx⟩
  · exact Or.inr ⟨hp, by rw [hy, hx, BitVec.and_assoc, BitVec.and_self]⟩

theorem Programmed.mono (h : Programmed d P f f') (hq : ∀ x, P x → Q x) : Programmed d Q f f' :=
  fun x => (h x).imp_right fun hx => ⟨hq x hx.1, hx.2⟩

theorem Programmed.congr {e : Memory α w} (h : Programmed d P f f') (hd : ∀ x, P x → d x = e x) :
    Programmed e P f f' := by
  intro x
  rcases h x with hx | ⟨hp, hx⟩
  · exact Or.inl hx
  · exact Or.inr ⟨hp, by rw [hx, hd x hp]⟩

theorem programmed_program [DecidablePred P] : Programmed d P f (program f P d) := by
  intro x
  unfold program
  split_ifs with hx
  · exact Or.inr ⟨hx, rfl⟩
  · exact Or.inl rfl

theorem Programmed.frame (h : Programmed d P f f') (hx : ¬ P x) : f' x = f x :=
  (h x).resolve_right fun hp => hx hp.1

/-- What is there already stays. -/
theorem Programmed.same (h : Programmed d P f f') (hx : f x = d x) : f' x = d x := by
  rcases h x with he | ⟨-, he⟩
  · rw [he, hx]
  · rw [he, hx, BitVec.and_self]

theorem Programmed.erased (h : Programmed d P f f') (hx : f x = BitVec.allOnes w) :
    f' x = BitVec.allOnes w ∨ f' x = d x := by
  rcases h x with he | ⟨-, he⟩
  · exact Or.inl (he.trans hx)
  · rw [hx, BitVec.allOnes_and] at he
    exact Or.inr he

theorem program_eq [DecidablePred P] (h : Programmable f d P) (hx : P x) :
    program f P d x = d x := by
  rw [program, if_pos hx]
  exact h x hx

theorem program_frame [DecidablePred P] (hx : ¬ P x) : program f P d x = f x := if_neg hx

@[simp] theorem erase_of [DecidablePred P] (hx : P x) : erase f P x = BitVec.allOnes w := if_pos hx

theorem erase_frame [DecidablePred P] (hx : ¬ P x) : erase f P x = f x := if_neg hx

theorem programmable_erase [DecidablePred P] (hq : ∀ x, Q x → P x) :
    Programmable (erase f P) d Q := by
  intro x hx
  rw [erase_of (hq x hx), BitVec.allOnes_and]

end S6Soc.NorFlash
