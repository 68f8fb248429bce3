import Mathlib
import S6Soc.Clocked
import S6Soc.Kernel

/-! Where `sys_malloc` puts tasks, file descriptors and pipes, and what `new_task` does with
a task's memory. -/
namespace S6Soc.ZipOS
open Clocked

/-- `state`, `context[16]`, `fd[4]`, `user_heap`, `errno`, `waitsig`, `pending`, `timeout` and
`user_data[1]`, all of four bytes. -/
def sizeofTask : Word := 108

/-- The offset of `user_data`. -/
def userData : Word := 104

def sizeofKfildes : Word := 8

/-- Nine words and `m_buf[1]`, padded. -/
def sizeofSyspipe : Word := 40

/-- `(sz+3)&-4`. -/
def roundUp (sz : Word) : Word := (sz + 3) &&& 0xfffffffc#32

/-- `for(msk=16; msk<len; msk<<=1)`, if it ends within `n` turns. -/
def doubleUp (len : Word) : Nat → Word → Option Word
  | 0, _ => none
  | n + 1, msk => if msk < len then doubleUp len n (msk <<< 1) else some msk

/-- The bytes of a new pipe's buffer. From 16, 28 turns shift the bit out; from 0 on the
loop does not end, unless `len` is 0. -/
def pipeLength (len : Word) : Option Word := doubleUp len 30 16

inductive Use
  | plain
  | kfildes
  | syspipe
  | task (ln : Word)
  deriving DecidableEq

/-- A block of memory: `size` bytes from `base` on, around the end of the address space. -/
structure Block where
  base : Word
  size : Word
  use : Use
  deriving DecidableEq

def Block.Has (b : Block) (a : Word) : Prop := (a - b.base).toNat < b.size.toNat

def Block.Disjoint (b c : Block) : Prop := ∀ a, ¬ (b.Has a ∧ c.Has a)

/-- The loop of `new_task` clears words, `sizeof(struct TASK_S)+ln` of them. -/
def Cleared (tsk ln a : Word) : Prop :=
  ∃ i < (sizeofTask + ln).toNat, ∃ j < 4, a = tsk + BitVec.ofNat 32 (4 * i + j)

/-- `&tsk->user_data[ln]`, an address of words. -/
def stackPointer (tsk ln : Word) : Word := tsk + userData + 4 * ln

/-- The `ln` bytes below the stack pointer. -/
def Stacked (tsk ln a : Word) : Prop :=
  ∃ i < ln.toNat, a = stackPointer tsk ln - BitVec.ofNat 32 (i + 1)

/-- What `new_task` clears and what the task has for a stack lie in the task's block. -/
def Block.Holds (b : Block) : Prop :=
  match b.use with
  | .task ln => ∀ a, Cleared b.base ln a ∨ Stacked b.base ln a → b.Has a
  | .plain | .kfildes | .syspipe => True

def Use.isTask : Use → Bool
  | .task _ => true
  | .plain | .kfildes | .syspipe => false

/-- The heap pointer, where it stood at first, the blocks and the sum of their sizes. -/
structure Memory where
  heap : Word
  start : Word
  blocks : List Block
  used : Nat

inductive Call
  | sysMalloc (sz : Word)
  | newTask (ln : Word)
  | kopen
  | newSyspipe (len : Word)
  deriving DecidableEq

def Memory.sysMalloc (m : Memory) (sz : Word) (use : Use) : Memory where
  heap := m.heap + roundUp sz
  start := m.start
  blocks := m.blocks ++ [⟨m.heap, roundUp sz, use⟩]
  used := m.used + 4 * ((sz.toNat + 3) / 4)

/-- The size a call asks `sys_malloc` for, if it gets there. -/
def Call.size : Call → Option Word
  | .sysMalloc sz => some sz
  | .newTask ln => some (sizeofTask + ln)
  | .kopen => some sizeofKfildes
  | .newSyspipe len => (pipeLength len).map fun msk => sizeofSyspipe - 1 + msk

def Call.use : Call → Use
  | .sysMalloc _ => .plain
  | .newTask ln => .task ln
  | .kopen => .kfildes
  | .newSyspipe _ => .syspipe

def Memory.next (m : Memory) (c : Call) : Memory :=
  match c.size with
  | some sz => m.sysMalloc sz c.use
  | none => m

/-- Any calls, a `new_syspipe` that does not return apart. -/
def allocator : System Memory Call where
  init m := m.heap = m.start ∧ m.blocks = [] ∧ m.used = 0
  allowed _ c := c.size.isSome
  next := Memory.next

/-- The sizes, rounded up to words, do not add up to more than there are addresses. -/
def Memory.Fits (m : Memory) (c : Call) : Prop :=
  ∀ sz ∈ c.size, m.used + 4 * ((sz.toNat + 3) / 4) ≤ 2 ^ 32

variable {m : Memory} {b : Block} {a sz tsk ln : Word} {use : Use} {c : Call}

theorem toNat_and_neg_four (x : Word) : (x &&& 0xfffffffc#32).toNat = 4 * (x.toNat / 4) := by
  have key : ∀ i : Fin 32, (0xfffffffc#32)[i.val] = decide (2 ≤ i.val) := by decide
  have h : x &&& 0xfffffffc#32 = (x >>> 2) <<< 2 := by
    ext i hi
    have hbit : (0xfffffffc#32)[i] = decide (2 ≤ i) := key ⟨i, hi⟩
    rw [BitVec.getElem_and, hbit, BitVec.getElem_shiftLeft]
    rcases Nat.lt_or_ge i 2 with h2 | h2
    · simp [h2, Nat.not_le.mpr h2]
    · simp [h2, Nat.not_lt.mpr h2, BitVec.getLsbD_eq_getElem hi]
  have := x.isLt
  rw [h, BitVec.toNat_shiftLeft, BitVec.toNat_ushiftRight, Nat.shiftRight_eq_div_pow,
    Nat.shiftLeft_eq]
  omega

theorem toNat_roundUp : (roundUp sz).toNat = 4 * ((sz.toNat + 3) / 4) % 2 ^ 32 := by
  have := sz.isLt
  rw [roundUp, toNat_and_neg_four, BitVec.toNat_add]
  simp only [BitVec.reduceToNat]
  omega

theorem roundUp_eq : roundUp sz = BitVec.ofNat 32 (4 * ((sz.toNat + 3) / 4)) := by
  apply BitVec.eq_of_toNat_eq
  rw [toNat_roundUp, BitVec.toNat_ofNat]

/-- The addresses of a block that ends within the address space, seen from `start`. -/
theorem Block.has_range {start : Word} {o : Nat} (hb : b.base = start + BitVec.ofNat 32 o)
    (ho : o + b.size.toNat ≤ 2 ^ 32) (ha : b.Has a) :
    o ≤ (a - start).toNat ∧ (a - start).toNat < o + b.size.toNat := by
  have hd : a - b.base = (a - start) - BitVec.ofNat 32 o := by
    rw [hb]
    ring
  have hlt := (a - start).isLt
  rw [Block.Has, hd, BitVec.toNat_sub, BitVec.toNat_ofNat] at ha
  generalize (a - start).toNat = d at *
  omega

/-- A task's block never holds the words that `new_task` clears and the task's stack. -/
theorem Block.not_holds (hb : b.use = .task ln) (hs : b.size = roundUp (sizeofTask + ln)) :
    ¬ b.Holds := by
  intro h
  simp only [Block.Holds, hb] at h
  have hsize : b.size.toNat = 4 * (((sizeofTask + ln).toNat + 3) / 4) % 2 ^ 32 := by
    rw [hs, toNat_roundUp]
  have hlt := (sizeofTask + ln).isLt
  rcases Nat.lt_or_ge 1 (sizeofTask + ln).toNat with hn | hn
  · -- the first word after the block is cleared
    have hclear : Cleared b.base ln (b.base + BitVec.ofNat 32 b.size.toNat) := by
      refine ⟨b.size.toNat / 4, by omega, 0, by omega, ?_⟩
      rw [show 4 * (b.size.toNat / 4) + 0 = b.size.toNat by omega]
    have hin := h _ (.inl hclear)
    rw [Block.Has, add_sub_cancel_left, BitVec.toNat_ofNat] at hin
    have := b.size.isLt
    omega
  · -- the sum has wrapped: the stack takes up almost all addresses
    have hln : ln = 0xffffff94#32 ∨ ln = 0xffffff95#32 := by
      have := ln.isLt
      rw [sizeofTask, BitVec.toNat_add] at hn
      simp only [BitVec.reduceToNat] at hn
      have : ln.toNat = 0xffffff94 ∨ ln.toNat = 0xffffff95 := by omega
      exact this.imp (fun h => BitVec.eq_of_toNat_eq h) (fun h => BitVec.eq_of_toNat_eq h)
    have hstack : Stacked b.base ln (stackPointer b.base ln - BitVec.ofNat 32 1) := by
      refine ⟨0, ?_, rfl⟩
      rcases hln with rfl | rfl <;> decide
    have hin := h _ (.inr hstack)
    have hoff : stackPointer b.base ln - BitVec.ofNat 32 1 - b.base =
        userData + 4 * ln - BitVec.ofNat 32 1 := by
      rw [stackPointer]
      ring
    rw [Block.Has, hoff, hs] at hin
    rcases hln with rfl | rfl <;> exact absurd hin (by decide)

/-- The blocks lie one after the other from `start` on. -/
structure Memory.Laid (m : Memory) : Prop where
  heap : m.heap = m.start + BitVec.ofNat 32 m.used
  used : m.used ≤ 2 ^ 32
  laid : ∀ b ∈ m.blocks, ∃ o, b.base = m.start + BitVec.ofNat 32 o ∧ o + b.size.toNat ≤ m.used
  disjoint : m.blocks.Pairwise Block.Disjoint
  task : ∀ b ∈ m.blocks, ∀ ln, b.use = .task ln → b.size = roundUp (sizeofTask + ln)

theorem Memory.Laid.sysMalloc (h : m.Laid) (hf : m.used + 4 * ((sz.toNat + 3) / 4) ≤ 2 ^ 32)
    (ht : ∀ ln, use = .task ln → sz = sizeofTask + ln) : (m.sysMalloc sz use).Laid := by
  have hsize : (roundUp sz).toNat ≤ 4 * ((sz.toNat + 3) / 4) := by
    rw [toNat_roundUp]
    exact Nat.mod_le _ _
  refine ⟨?_, hf, fun b hb => ?_, ?_, fun b hb ln hln => ?_⟩
  · simp only [Memory.sysMalloc, h.heap, roundUp_eq, BitVec.ofNat_add]
    ring
  · simp only [Memory.sysMalloc] at hb ⊢
    rcases List.mem_append.mp hb with hb | hb
    · obtain ⟨o, hbase, ho⟩ := h.laid b hb
      exact ⟨o, hbase, by omega⟩
    · obtain rfl := List.mem_singleton.mp hb
      exact ⟨m.used, h.heap, by dsimp only; omega⟩
  · refine List.pairwise_append.mpr ⟨h.disjoint, List.pairwise_singleton _ _, ?_⟩
    rintro b hb c hc a ⟨hba, hca⟩
    obtain rfl := List.mem_singleton.mp hc
    obtain ⟨o, hbase, ho⟩ := h.laid b hb
    have hold := Block.has_range hbase (by omega) hba
    have hnew := Block.has_range h.heap (by dsimp only; omega) hca
    omega
  · simp only [Memory.sysMalloc] at hb
    rcases List.mem_append.mp hb with hb | hb
    · exact h.task b hb ln hln
    · obtain rfl := List.mem_singleton.mp hb
      rw [← ht ln hln]

theorem Memory.Laid.next (h : m.Laid) (hf : m.Fits c) : (m.next c).Laid := by
  unfold Memory.next
  cases hc : c.size with
  | none => exact h
  | some sz =>
    refine h.sysMalloc (hf sz hc) fun ln hln => ?_
    cases c <;> cases hln
    exact (Option.some.inj hc).symm

theorem Memory.Laid.init (hh : m.heap = m.start) (hb : m.blocks = []) (hu : m.used = 0) :
    m.Laid := by
  refine ⟨by simp [hh, hu], by simp [hu], ?_, ?_, ?_⟩ <;> simp [hb]

/-- Until the sizes add up to the whole address space blocks are disjoint, but no task's
block holds what it should. -/
theorem memory_placed_iff (h : (allocator.restrict Memory.Fits).Reachable m) :
    (m.blocks.Pairwise Block.Disjoint ∧ ∀ b ∈ m.blocks, b.Holds) ↔
      ∀ b ∈ m.blocks, b.use.isTask = false := by
  have hlaid : m.Laid := h.invariant (fun _ hi => Memory.Laid.init hi.1 hi.2.1 hi.2.2)
    fun _ _ hu ha => hu.next ha.2
  constructor
  · rintro ⟨-, hall⟩ b hb
    cases hu : b.use with
    | task ln => exact absurd (hall b hb) (Block.not_holds hu (hlaid.task b hb ln hu))
    | _ => rfl
  · intro hnone
    refine ⟨hlaid.disjoint, fun b hb => ?_⟩
    have hb := hnone b hb
    unfold Block.Holds
    cases hu : b.use with
    | task ln => simp [hu, Use.isTask] at hb
    | _ => trivial

def newMemory : Memory := ⟨0x5000, 0x5000, [], 0⟩

theorem init_newMemory : allocator.init newMemory := ⟨rfl, rfl, rfl⟩

/-- Two pipes and a file descriptor, as `kinit` allocates them first. -/
def devices : List Call := [.newSyspipe 64, .newSyspipe 512, .kopen]

theorem memory_placed_iff_devices :
    ((devices.foldl Memory.next newMemory).blocks.Pairwise Block.Disjoint ∧
        ∀ b ∈ (devices.foldl Memory.next newMemory).blocks, b.Holds) ↔
      ∀ b ∈ (devices.foldl Memory.next newMemory).blocks, b.use.isTask = false :=
  memory_placed_iff ((System.reachable_init (M := allocator.restrict Memory.Fits)
    init_newMemory).foldl (by
      refine ⟨⟨rfl, ?_⟩, ⟨rfl, ?_⟩, ⟨rfl, ?_⟩, trivial⟩ <;>
        (rintro sz hsz; obtain rfl := Option.some.inj hsz; decide)))

/-- A task with 1024 bytes of stack, and three blocks of half the address space each. -/
theorem task_overruns_block :
    (∃ m, allocator.Reachable m ∧ ¬ ∀ b ∈ m.blocks, b.Holds) ∧
    ∃ m, allocator.Reachable m ∧ ¬ m.blocks.Pairwise Block.Disjoint := by
  refine ⟨⟨newMemory.next (.newTask 1024), ?_, fun h => ?_⟩,
    ⟨(List.replicate 3 (Call.sysMalloc 0x80000000)).foldl Memory.next newMemory, ?_, fun h => ?_⟩⟩
  · have hallowed : allocator.allowed newMemory (.newTask 1024) := rfl
    exact (System.reachable_init init_newMemory).step hallowed
  · have hin := h ⟨0x5000, 1132, .task 1024⟩ (by decide) (0x5000 + 1132)
      (.inl ⟨283, by decide, 0, by decide, by decide⟩)
    exact absurd hin (by unfold Block.Has; decide)
  · exact (System.reachable_init init_newMemory).foldl ⟨rfl, rfl, rfl, trivial⟩
  · have hne := List.pairwise_iff_getElem.mp h 0 2 (by decide) (by decide) (by decide) 0x5000
    exact hne ⟨by unfold Block.Has; decide, by unfold Block.Has; decide⟩

end S6Soc.ZipOS
