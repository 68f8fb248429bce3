import Mathlib.Algebra.Group.Nat.Defs
import Mathlib.Data.List.Basic
import Mathlib.Logic.Function.Basic
import Mathlib.Tactic.Basic

/-! Ring buffers: `size` cells, of which those from `tail` up to `head`, around the
end, are in use. One cell always stays free. -/
namespace S6Soc.Ring

variable {α : Type} {size tail head n : Nat} {buf : Nat → α}

def count (size tail head : Nat) : Nat := (head + size - tail) % size

def contents (size : Nat) (buf : Nat → α) (tail head : Nat) : List α :=
  (List.range (count size tail head)).map fun k => buf ((tail + k) % size)

/-- `n` cells from `i` on, short of the end. -/
def run (buf : Nat → α) (i n : Nat) : List α := (List.range n).map fun k => buf (i + k)

/-- `xs` stored from cell `i` on, short of the end. -/
def store (buf : Nat → α) (i : Nat) (xs : List α) (k : Nat) : α :=
  if h : i ≤ k ∧ k - i < xs.length then xs.get ⟨k - i, h.2⟩ else buf k

@[simp] theorem length_contents : (contents size buf tail head).length = count size tail head := by
  simp [contents]

theorem count_lt (h : 0 < size) : count size tail head < size := Nat.mod_lt _ h

theorem count_eq (ht : tail < size) (hh : head < size) :
    count size tail head = if tail ≤ head then head - tail else head + size - tail := by
  unfold count
  split
  · rw [show head + size - tail = head - tail + size by omega, Nat.add_mod_right,
      Nat.mod_eq_of_lt (by omega)]
  · rw [Nat.mod_eq_of_lt (by omega)]

theorem count_eq_zero_iff (ht : tail < size) (hh : head < size) :
    count size tail head = 0 ↔ head = tail := by
  rw [count_eq ht hh]
  split <;> omega

theorem contents_eq_nil_iff (ht : tail < size) (hh : head < size) :
    contents size buf tail head = [] ↔ head = tail := by
  rw [← List.length_eq_zero_iff, length_contents, count_eq_zero_iff ht hh]

/-- The sizes are powers of two, so that a mask takes an index around the end. -/
theorem and_mask {mask : Nat} (hm : ∃ k, mask = 2 ^ k - 1) (n : Nat) :
    n &&& mask = n % (mask + 1) := by
  obtain ⟨k, hk⟩ := hm
  have : 0 < 2 ^ k := Nat.two_pow_pos k
  rw [hk, Nat.and_two_pow_sub_one_eq_mod, Nat.sub_add_cancel this]

/-- The cells that are still free, but for the one that always is. -/
theorem room_eq {last : Nat} (ht : tail ≤ last) (hh : head ≤ last) :
    (tail + (last + 1) - head - 1) % (last + 1) = last - count (last + 1) tail head := by
  rw [count_eq (Nat.lt_succ_of_le ht) (Nat.lt_succ_of_le hh)]
  split
  · rw [show tail + (last + 1) - head - 1 = last - (head - tail) by omega,
      Nat.mod_eq_of_lt (by omega)]
  · rw [show tail + (last + 1) - head - 1 =
      last - (head + (last + 1) - tail) + (last + 1) by omega,
      Nat.add_mod_right, Nat.mod_eq_of_lt (by omega)]

/-- Index `k` from `i`, around the end. -/
theorem wrap_eq (hi : n < size) {k : Nat} (hk : k < size) :
    (n + k) % size = if n + k < size then n + k else n + k - size := by
  split
  · exact Nat.mod_eq_of_lt ‹_›
  · rw [Nat.mod_eq_sub_mod (by omega), Nat.mod_eq_of_lt (by omega)]

theorem count_pop (ht : tail < size) (hh : head < size) (hn : n ≤ count size tail head)
    (hs : tail + n ≤ size) :
    count size ((tail + n) % size) head + n = count size tail head := by
  have hlt : (tail + n) % size < size := Nat.mod_lt _ (by omega)
  have he : (tail + n) % size = if tail + n < size then tail + n else 0 := by
    split
    · exact Nat.mod_eq_of_lt ‹_›
    · rw [show tail + n = size by omega, Nat.mod_self]
  rw [count_eq ht hh] at hn ⊢
  rw [count_eq hlt hh, he]
  split_ifs at hn ⊢ <;> omega

/-- Taking `n` cells off the front, short of the end. -/
theorem contents_pop (ht : tail < size) (hh : head < size) (hn : n ≤ count size tail head)
    (hs : tail + n ≤ size) : contents size buf tail head =
      run buf tail n ++ contents size buf ((tail + n) % size) head := by
  have hc := count_pop ht hh hn hs
  apply List.ext_getElem
  · simp [run]
    omega
  · intro k h₁ h₂
    rw [length_contents] at h₁
    have hlt : count size tail head < size := count_lt (by omega)
    simp only [contents, run, List.getElem_map, List.getElem_range, List.getElem_append,
      List.length_map, List.length_range]
    split
    · rw [wrap_eq ht (by omega), if_pos (by omega)]
    · rw [Nat.mod_add_mod]
      congr 2
      omega

theorem store_of_lt {xs : List α} {i k : Nat} (h : k < i) : store buf i xs k = buf k :=
  dif_neg (by omega)

theorem store_of_ge {xs : List α} {i k : Nat} (h : i + xs.length ≤ k) : store buf i xs k = buf k :=
  dif_neg (by omega)

theorem store_getElem {xs : List α} {i k : Nat} (h : k < xs.length) :
    store buf i xs (i + k) = xs[k] := by
  rw [store, dif_pos ⟨by omega, by omega⟩]
  simp

theorem count_push (ht : tail < size) (hh : head < size) (hn : count size tail head + n < size)
    (hs : head + n ≤ size) :
    count size tail ((head + n) % size) = count size tail head + n := by
  have hlt : (head + n) % size < size := Nat.mod_lt _ (by omega)
  have he : (head + n) % size = if head + n < size then head + n else 0 := by
    split
    · exact Nat.mod_eq_of_lt ‹_›
    · rw [show head + n = size by omega, Nat.mod_self]
  rw [count_eq ht hh] at hn ⊢
  rw [count_eq ht hlt, he]
  split_ifs at hn ⊢ <;> omega

/-- The cells in use lie outside the `n` free ones from `head` on. -/
theorem wrap_used (ht : tail < size) (hh : head < size) {k : Nat} (hk : k < count size tail head)
    (hn : count size tail head + n < size) :
    (tail + k) % size < head ∨ head + n ≤ (tail + k) % size := by
  rw [wrap_eq ht (by omega)]
  rw [count_eq ht hh] at hk hn
  split_ifs at hk hn ⊢ <;> omega

/-- A free cell is no part of the contents. -/
theorem contents_update (ht : tail < size) (hh : head < size) {i : Nat} {x : α} (hi : i < n)
    (hn : count size tail head + n < size) :
    contents size (Function.update buf (head + i) x) tail head = contents size buf tail head := by
  refine List.map_congr_left fun k hk => Function.update_of_ne ?_ _ _
  obtain h | h := wrap_used ht hh (List.mem_range.mp hk) hn <;> omega

/-- Cells that hold `xs` already. -/
theorem store_eq_self {xs : List α} {i : Nat} (h : ∀ k (hk : k < xs.length), buf (i + k) = xs[k]) :
    store buf i xs = buf := by
  funext k
  unfold store
  split
  next hk =>
    have := h (k - i) hk.2
    rw [Nat.add_sub_cancel' hk.1] at this
    simpa using this.symm
  · rfl

/-- The cells after those in use start at `head`. -/
theorem wrap_free (ht : tail < size) (hh : head < size) {k : Nat} (hk : count size tail head ≤ k)
    (hn : k < size) (hs : head + (k - count size tail head) < size) :
    (tail + k) % size = head + (k - count size tail head) := by
  rw [wrap_eq ht hn]
  rw [count_eq ht hh] at hk hs ⊢
  split_ifs at hk hs ⊢ <;> omega

/-- Storing `xs` at the back, short of the end and with a cell to spare. -/
theorem contents_push {xs : List α} (ht : tail < size) (hh : head < size)
    (hn : count size tail head + xs.length < size) (hs : head + xs.length ≤ size) :
    contents size (store buf head xs) tail ((head + xs.length) % size) =
      contents size buf tail head ++ xs := by
  have hc := count_push ht hh hn hs
  apply List.ext_getElem
  · simp [hc]
  · intro k h₁ h₂
    rw [length_contents, hc] at h₁
    simp only [contents, List.getElem_map, List.getElem_range, List.getElem_append,
      List.length_map, List.length_range]
    split
    · obtain h | h := wrap_used (n := xs.length) ht hh ‹_› hn
      · rw [store_of_lt h]
      · rw [store_of_ge h]
    · rw [wrap_free ht hh (by omega) (by omega) (by omega), store_getElem]

end S6Soc.Ring
