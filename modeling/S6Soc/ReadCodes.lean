import Mathlib
import S6Soc.TtyBus

/-! What the host reads back: `TTYBUS::lclreadcode` and `TTYBUS::readidle`. -/
namespace S6Soc.TtyBus

def isCode (b : Char) : Bool := (chardec b).isSome

/-- Its loop: `sp` and `dp` are indices into the buffer. -/
structure Compaction where
  buf : List Char
  sp : Nat
  dp : Nat
  ret : Nat

def Compaction.step (c : Compaction) : Compaction :=
  if isCode (c.buf.getD c.sp '\n') then
    -- `*sp++ = *dp++`
    { c with buf := c.buf.set c.sp (c.buf.getD c.dp '\n'), sp := c.sp + 1, dp := c.dp + 1 }
  else { c with ret := c.ret - 1, sp := c.sp + 1 }

/-- After `i` of the received characters. -/
def compaction (received : List Char) (i : Nat) : Compaction :=
  Compaction.step^[i] { buf := received, sp := 0, dp := 0, ret := received.length }

/-- The buffer afterwards and the value returned. -/
def lclreadcode (received : List Char) : List Char × Nat :=
  let c := compaction received received.length
  (c.buf, c.ret)

variable {xs : List Char} {i k : Nat} {ch : Char}

theorem compaction_succ (xs : List Char) (i : Nat) :
    compaction xs (i + 1) = (compaction xs i).step :=
  Function.iterate_succ_apply' ..

/-- What the loop has done to the first `i` characters: it has not written where there was
no code, nor before the first such place, nor ahead of `sp`. -/
structure Compacting (xs : List Char) (i : Nat) (c : Compaction) : Prop where
  sp : c.sp = i
  length : c.buf.length = xs.length
  dp : c.dp = (xs.take i).countP isCode
  ret : c.ret + i = xs.length + (xs.take i).countP isCode
  ahead : ∀ k : Nat, i ≤ k → c.buf[k]? = xs[k]?
  other : ∀ (k : Nat) (ch : Char), xs[k]? = some ch → isCode ch = false → c.buf[k]? = some ch
  leading : ∀ k : Nat, (∀ ch ∈ xs.take (k + 1), isCode ch) → c.buf[k]? = xs[k]?

theorem countP_take_succ (h : xs[i]? = some ch) :
    (xs.take (i + 1)).countP isCode = (xs.take i).countP isCode + if isCode ch then 1 else 0 := by
  rw [List.take_add_one, h, List.countP_append]
  simp [List.countP_cons]

/-- Among leading codes nothing has been dropped yet. -/
theorem countP_leading (h : ∀ ch ∈ xs.take (k + 1), isCode ch) (hk : i ≤ k) (hi : i ≤ xs.length) :
    (xs.take i).countP isCode = i := by
  have hall : ∀ ch ∈ xs.take i, isCode ch := fun ch hc =>
    h ch ((List.take_subset_take_left xs (by omega)) hc)
  rw [List.countP_eq_length.2 hall, List.length_take]
  omega

theorem Compacting.init (xs : List Char) : Compacting xs 0 (compaction xs 0) where
  sp := rfl
  length := rfl
  dp := rfl
  ret := rfl
  ahead := fun _ _ => rfl
  other := fun _ _ h _ => h
  leading := fun _ _ => rfl

theorem Compacting.step {c : Compaction} (h : Compacting xs i c) (hi : i < xs.length) :
    Compacting xs (i + 1) c.step := by
  obtain ⟨ch, hch⟩ : ∃ ch, xs[i]? = some ch := ⟨_, List.getElem?_eq_getElem hi⟩
  have hsp : c.buf.getD c.sp '\n' = ch := by
    rw [List.getD_eq_getElem?_getD, h.sp, h.ahead i (Nat.le_refl i), hch]
    rfl
  have hcount := countP_take_succ hch
  have hdp := h.dp
  have hret := h.ret
  unfold Compaction.step
  rw [hsp]
  by_cases hc : isCode ch
  · rw [if_pos hc] at hcount ⊢
    refine ⟨by simp [h.sp], by simp [h.length], by simp only; omega,
      by simp only; omega, ?_, ?_, ?_⟩
    · intro k hk
      rw [List.getElem?_set_ne (by have := h.sp; omega)]
      exact h.ahead k (by omega)
    · intro k x hx hno
      have hne : k ≠ i := by
        rintro rfl
        cases hch.symm.trans hx
        exact absurd (hc.symm.trans hno) (by decide)
      rw [List.getElem?_set_ne (by have := h.sp; omega)]
      exact h.other k x hx hno
    · intro k hlead
      by_cases hk : k = i
      · -- still in step: the character is copied onto itself
        subst hk
        have hsame : c.dp = k := hdp.trans (countP_leading hlead (Nat.le_refl k) hi.le)
        rw [h.sp, hsame, List.getElem?_set_self (by rw [h.length]; exact hi),
          List.getD_eq_getElem?_getD, h.leading k hlead, hch]
        rfl
      · rw [List.getElem?_set_ne (by have := h.sp; omega)]
        exact h.leading k hlead
  · rw [if_neg hc] at hcount ⊢
    have hle := List.countP_le_length (p := isCode) (l := xs.take i)
    rw [List.length_take] at hle
    exact ⟨by simp [h.sp], h.length, by simp only; omega, by simp only; omega,
      fun k hk => h.ahead k (by omega), h.other, h.leading⟩

theorem Compacting.run (xs : List Char) (hi : i ≤ xs.length) :
    Compacting xs i (compaction xs i) := by
  induction i with
  | zero => exact .init xs
  | succ i ih =>
    rw [compaction_succ]
    exact (ih (by omega)).step (by omega)

theorem lclreadcode_compacting (xs : List Char) :
    Compacting xs xs.length (compaction xs xs.length) := .run xs (Nat.le_refl _)

/-- The value returned is right whatever was received. -/
theorem lclreadcode_ret (xs : List Char) : (lclreadcode xs).2 = (xs.filter isCode).length := by
  have h := (lclreadcode_compacting xs).ret
  rw [List.take_length, List.countP_eq_length_filter] at h
  exact Nat.add_right_cancel (h.trans (Nat.add_comm _ _))

theorem lclreadcode_le (xs : List Char) : (lclreadcode xs).2 ≤ xs.length := by
  rw [lclreadcode_ret]
  exact List.length_filter_le ..

/-- No code character comes after one that is none. -/
def CodesFirst (xs : List Char) : Prop := xs.Pairwise fun x y => isCode y → isCode x

instance (xs : List Char) : Decidable (CodesFirst xs) := by
  unfold CodesFirst
  infer_instance

theorem codesFirst_append {ys : List Char} (hx : ∀ ch ∈ xs, isCode ch)
    (hy : ∀ ch ∈ ys, ¬ isCode ch) : CodesFirst (xs ++ ys) := by
  refine List.pairwise_append.2 ⟨?_, ?_, fun x hm _ _ _ => hx x hm⟩
  · exact List.pairwise_of_forall_mem_list fun x hm _ _ _ => hx x hm
  · exact List.pairwise_of_forall_mem_list fun _ _ y hm hc => absurd hc (hy y hm)

/-- As many codes as there are at the front: the rest are none. -/
theorem codesFirst_of_take (h : ∀ ch ∈ xs.take (xs.filter isCode).length, isCode ch) :
    CodesFirst xs := by
  have hcount : xs.countP isCode = (xs.take (xs.filter isCode).length).countP isCode +
      (xs.drop (xs.filter isCode).length).countP isCode := by
    rw [← List.countP_append, List.take_append_drop]
  rw [List.countP_eq_length.2 h, List.countP_eq_length_filter,
    List.length_take, Nat.min_eq_left (List.length_filter_le ..)] at hcount
  have hnone : ∀ ch ∈ xs.drop (xs.filter isCode).length, ¬ isCode ch :=
    List.countP_eq_zero.1 (by omega)
  exact List.take_append_drop (xs.filter isCode).length xs ▸ codesFirst_append h hnone

theorem CodesFirst.take (h : CodesFirst xs) :
    xs.take (xs.filter isCode).length = xs.filter isCode := by
  induction xs with
  | nil => rfl
  | cons x xs ih =>
    obtain ⟨hx, hxs⟩ := List.pairwise_cons.1 h
    by_cases hc : isCode x
    · rw [List.filter_cons_of_pos hc, List.length_cons, List.take_succ_cons, ih hxs]
    · have hnone : (x :: xs).filter isCode = [] := by
        refine List.filter_eq_nil_iff.2 fun y hy => ?_
        rcases List.mem_cons.1 hy with rfl | hy
        · exact hc
        · exact fun hyc => hc (hx y hy hyc)
      rw [hnone]
      rfl

/-- The buffer holds the codes exactly where they were at its front already: nothing is
ever moved to where it belongs. -/
theorem lclreadcode_iff (received : List Char) :
    (lclreadcode received).1.take (lclreadcode received).2 = received.filter isCode ↔
      CodesFirst received := by
  have h := lclreadcode_compacting received
  rw [lclreadcode_ret]
  constructor
  · intro heq
    refine codesFirst_of_take fun ch hch => ?_
    obtain ⟨k, hk, rfl⟩ := List.getElem_of_mem hch
    rw [List.getElem_take]
    by_contra hno
    have hlt : k < (received.filter isCode).length := by
      rw [List.length_take] at hk
      omega
    have hsame := h.other k _ (List.getElem?_eq_getElem _) (Bool.eq_false_iff.2 hno)
    have hmem := List.mem_of_getElem? ((List.getElem?_take_of_lt hlt).trans hsame)
    rw [show (compaction received received.length).buf = (lclreadcode received).1 from rfl,
      heq] at hmem
    exact hno (List.mem_filter.1 hmem).2
  · intro hc
    refine Eq.trans (List.ext_getElem? fun k => ?_) hc.take
    by_cases hk : k < (received.filter isCode).length
    · rw [List.getElem?_take_of_lt hk, List.getElem?_take_of_lt hk]
      refine h.leading k fun ch hch => ?_
      have hsub := List.take_subset_take_left received (show k + 1 ≤ _ from hk) hch
      rw [hc.take] at hsub
      exact (List.mem_filter.1 hsub).2
    · rw [List.getElem?_take_eq_none (by omega), List.getElem?_take_eq_none (by omega)]

/-- A line end, then a code. -/
theorem lclreadcode_wrong : ¬ ∀ received : List Char,
    (lclreadcode received).1.take (lclreadcode received).2 = received.filter isCode :=
  fun h => absurd (h ['\n', '4']) (by decide)

end S6Soc.TtyBus
