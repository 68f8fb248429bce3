import Mathlib
import S6Soc.PipeCalls

/-! The buffers that the read and write traps accept. -/
namespace S6Soc.ZipOS
open Clocked

variable {τ ι : Type} {ptr len lo hi : Word}

def InRam (a : Word) : Prop := 0x4000 ≤ a ∧ a < 0x8000

def InFlash (a : Word) : Prop := 0x1000000 ≤ a ∧ a < 0x2000000

/-- The address of byte `i` of a buffer. -/
def byteOf (ptr : Word) (i : Nat) : Word := ptr + BitVec.ofNat 32 i

/-- The buffer starts in the region from `lo` up to `hi` and ends where the region ends. -/
def EndsAt (lo hi ptr len : Word) : Prop :=
  lo ≤ ptr ∧ ptr.toNat + len.toNat = hi.toNat

/-- The end of the buffer wraps around to an address below `hi`. -/
def WrapsBelow (hi ptr len : Word) : Prop :=
  2 ^ 32 ≤ ptr.toNat + len.toNat ∧ ptr.toNat + len.toNat < 2 ^ 32 + hi.toNat

section
variable [DecidableEq τ] [DecidableEq ι] (k : Kernel τ ι) (p : ι) (fd ptr len : Word)

/-- A trap leaves the pipes and the scheduling states as they are. -/
def Kernel.Unmoved (tr : Trap) : Prop :=
  (k.trap tr).pipes = k.pipes ∧ ∀ t, ((k.trap tr).tasks t).state = (k.tasks t).state

/-- A read trap on a pipe without a reader and without an overrun to report accepts the
buffers in RAM, and one refused for its arguments changes nothing. -/
structure Kernel.ChecksRead : Prop where
  accepts : (k.pipes p).mRdtask = .none → (k.pipes p).mError = false →
    ((kreadSyspipe (k.pipes p) k.current len.toInt (validRamRegion ptr len)).refused = none ↔
      ∀ i < len.toNat, InRam (byteOf ptr i))
  unmoved : (kreadSyspipe (k.pipes p) k.current len.toInt (validRamRegion ptr len)).refused =
    some (-EFAULT) → k.Unmoved (.read fd ptr len)

/-- A write trap on a pipe without a writer accepts the buffers in RAM and those in flash. -/
structure Kernel.ChecksWrite (bytes : List (BitVec 8)) : Prop where
  accepts : (k.pipes p).mWrtask = none →
    ((kwriteSyspipe (k.pipes p) k.current len.toInt (validMemRegion ptr len)).refused = none ↔
      (∀ i < len.toNat, InRam (byteOf ptr i)) ∨ ∀ i < len.toNat, InFlash (byteOf ptr i))
  unmoved : (kwriteSyspipe (k.pipes p) k.current len.toInt (validMemRegion ptr len)).refused =
    some (-EFAULT) → k.Unmoved (.write fd ptr len bytes)

end

theorem toNat_lt_of_pos (hl : 0 < len.toInt) : 0 < len.toNat ∧ len.toNat < 2 ^ 31 := by
  rw [BitVec.toInt_eq_toNat_cond] at hl
  have := len.isLt
  split_ifs at hl <;> omega

theorem toNat_byteOf {i : Nat} (hi : i < 2 ^ 32) :
    (byteOf ptr i).toNat = (ptr.toNat + i) % 2 ^ 32 := by
  rw [byteOf, BitVec.toNat_add, BitVec.toNat_ofNat, Nat.mod_eq_of_lt hi]

/-- Every byte lies in a region when the first does and the last does. -/
theorem all_bytes_iff (hl : 0 < len.toInt) :
    (∀ i < len.toNat, lo ≤ byteOf ptr i ∧ byteOf ptr i < hi) ↔
      lo ≤ ptr ∧ ptr.toNat + len.toNat ≤ hi.toNat := by
  obtain ⟨hpos, hlt⟩ := toNat_lt_of_pos hl
  have hp := ptr.isLt
  have hh := hi.isLt
  simp only [BitVec.le_def, BitVec.lt_def]
  constructor
  · intro h
    obtain ⟨hlo, hfirst⟩ := h 0 hpos
    rw [toNat_byteOf (by omega), Nat.add_zero, Nat.mod_eq_of_lt hp] at hlo hfirst
    refine ⟨hlo, ?_⟩
    by_contra hc
    -- the byte at `hi` would be one of the buffer's
    have hlast := (h (hi.toNat - ptr.toNat) (by omega)).2
    rw [toNat_byteOf (by omega), Nat.add_sub_cancel' hfirst.le, Nat.mod_eq_of_lt hh] at hlast
    exact Nat.lt_irrefl _ hlast
  · rintro ⟨hlo, hend⟩ i hi
    rw [toNat_byteOf (by omega), Nat.mod_eq_of_lt (by omega)]
    omega

/-- What the comparisons of the region macros come to. -/
theorem region_iff (hl : 0 < len.toInt) (hlo : lo.toNat ≤ 2 ^ 31) :
    (lo ≤ ptr ∧ ptr + len < hi) ↔
      (lo ≤ ptr ∧ ptr.toNat + len.toNat < hi.toNat) ∨ WrapsBelow hi ptr len := by
  obtain ⟨hpos, hlt⟩ := toNat_lt_of_pos hl
  have hp := ptr.isLt
  have hh := hi.isLt
  simp only [BitVec.le_def, BitVec.lt_def, WrapsBelow, BitVec.toNat_add]
  rcases Nat.lt_or_ge (ptr.toNat + len.toNat) (2 ^ 32) with hs | hs
  · rw [Nat.mod_eq_of_lt hs]
    omega
  · rw [Nat.mod_eq_sub_mod hs, Nat.mod_eq_of_lt (by omega)]
    omega

/-- The comparisons are right for a region, save for a buffer that ends where it ends and
one that wraps around below its end. -/
theorem region_right_iff (hl : 0 < len.toInt) (hlo : lo.toNat ≤ 2 ^ 31) :
    ((lo ≤ ptr ∧ ptr + len < hi) ↔ ∀ i < len.toNat, lo ≤ byteOf ptr i ∧ byteOf ptr i < hi) ↔
      ¬ EndsAt lo hi ptr len ∧ ¬ WrapsBelow hi ptr len := by
  have hh := hi.isLt
  rw [region_iff hl hlo, all_bytes_iff hl]
  simp only [EndsAt, WrapsBelow]
  constructor
  · intro h
    refine ⟨fun he => ?_, fun hw => ?_⟩
    · obtain ⟨-, hlt⟩ | ⟨hw, -⟩ := h.mpr ⟨he.1, he.2.le⟩ <;> omega
    · have := (h.mp (.inr hw)).2
      omega
  · rintro ⟨he, hw⟩
    constructor
    · rintro (h | h)
      · exact ⟨h.1, h.2.le⟩
      · exact absurd h hw
    · rintro ⟨hp, hend⟩
      exact .inl ⟨hp, lt_of_le_of_ne hend fun h => he ⟨hp, h⟩⟩

theorem validRamRegion_iff :
    validRamRegion ptr len = true ↔ 0x4000#32 ≤ ptr ∧ ptr + len < 0x8000#32 := by
  simp [validRamRegion]

theorem validMemRegion_iff : validMemRegion ptr len = true ↔
    (0x4000#32 ≤ ptr ∧ ptr + len < 0x8000#32) ∨
      0x1000000#32 ≤ ptr ∧ ptr + len < 0x2000000#32 := by
  simp [validMemRegion, validRamRegion, validFlashRegion]

theorem ram_right_iff (hl : 0 < len.toInt) :
    (validRamRegion ptr len = true ↔ ∀ i < len.toNat, InRam (byteOf ptr i)) ↔
      ¬ EndsAt 0x4000 0x8000 ptr len ∧ ¬ WrapsBelow 0x8000 ptr len := by
  rw [validRamRegion_iff]
  exact region_right_iff hl (by decide)

theorem mem_right_iff (hl : 0 < len.toInt) :
    (validMemRegion ptr len = true ↔
      (∀ i < len.toNat, InRam (byteOf ptr i)) ∨ ∀ i < len.toNat, InFlash (byteOf ptr i)) ↔
    ¬ EndsAt 0x4000 0x8000 ptr len ∧ ¬ EndsAt 0x1000000 0x2000000 ptr len ∧
      ¬ WrapsBelow 0x2000000 ptr len := by
  have hram : (∀ i < len.toNat, InRam (byteOf ptr i)) ↔
      0x4000#32 ≤ ptr ∧ ptr.toNat + len.toNat ≤ (0x8000#32).toNat := all_bytes_iff hl
  have hflash : (∀ i < len.toNat, InFlash (byteOf ptr i)) ↔
      0x1000000#32 ≤ ptr ∧ ptr.toNat + len.toNat ≤ (0x2000000#32).toNat := all_bytes_iff hl
  rw [validMemRegion_iff, region_iff hl (by decide), region_iff hl (by decide), hram, hflash]
  obtain ⟨hpos, hlt⟩ := toNat_lt_of_pos hl
  have hp := ptr.isLt
  simp only [EndsAt, WrapsBelow, BitVec.le_def, BitVec.reduceToNat]
  omega

section
variable {q : SysPipe τ} {u : τ} {valid : Bool}

theorem kread_accepts_iff (hl : 0 < len.toInt) (hr : q.mRdtask = .none) (he : q.mError = false) :
    (kreadSyspipe q u len.toInt valid).refused = none ↔ valid = true := by
  simp only [kreadSyspipe, hr, he, Bool.false_eq_true, if_false, if_neg (not_le.mpr hl)]
  cases valid
  · simp [refuse]
  · cases q.mWrtask <;> simp

theorem kwrite_accepts_iff (hl : 0 < len.toInt) (hw : q.mWrtask = none) :
    (kwriteSyspipe q u len.toInt valid).refused = none ↔ valid = true := by
  simp only [kwriteSyspipe, hw, if_neg (not_le.mpr hl)]
  cases valid
  · simp [refuse]
  · cases q.mRdtask <;> simp

/-- A call refused for its arguments leaves the pipe alone, and blocks and wakes nobody. -/
theorem kread_refuses {n : Int} (h : (kreadSyspipe q u n valid).refused = some (-EFAULT)) :
    kreadSyspipe q u n valid = refuse q EFAULT := by
  unfold kreadSyspipe at h ⊢
  cases hr : q.mRdtask with
  | none =>
    simp only [hr] at h ⊢
    split_ifs at h ⊢
    · cases h
    · rfl
    · rfl
    · cases hw : q.mWrtask <;> simp [hw] at h
  | interrupt => simp [hr, refuse, EFAULT, EBUSY] at h
  | task t => simp [hr, refuse, EFAULT, EBUSY] at h

theorem kwrite_refuses {n : Int} (h : (kwriteSyspipe q u n valid).refused = some (-EFAULT)) :
    kwriteSyspipe q u n valid = refuse q EFAULT := by
  unfold kwriteSyspipe at h ⊢
  cases hw : q.mWrtask with
  | none =>
    simp only [hw] at h ⊢
    split_ifs at h ⊢
    · rfl
    · rfl
    · cases hr : q.mRdtask <;> simp [hr] at h
  | some t => simp [hw, refuse, EFAULT, EBUSY] at h

end

section
variable [DecidableEq τ] [DecidableEq ι] {k : Kernel τ ι} {p : ι} {fd : Word}
  {bytes : List (BitVec 8)}

theorem Kernel.unmoved_enter {frame : Frame ι} {errno : Int} :
    (k.enter p (refuse (k.pipes p) errno) frame).pipes = k.pipes ∧
      ∀ t, ((k.enter p (refuse (k.pipes p) errno) frame).tasks t).state = (k.tasks t).state := by
  refine ⟨by simp [Kernel.enter, Kernel.wake, Kernel.setTask, Kernel.setPipe, refuse], fun t => ?_⟩
  by_cases ht : t = k.current
  · subst ht
    simp [Kernel.enter, Kernel.wake, Kernel.setTask, Kernel.setPipe, refuse, Task.enter]
  · simp [Kernel.enter, Kernel.wake, Kernel.setTask, Kernel.setPipe, refuse, ht]

theorem Kernel.checksRead_iff (hp : k.lookup fd = some p) (hl : 0 < len.toInt) :
    k.ChecksRead p fd ptr len ↔
      ((k.pipes p).mRdtask = .none → (k.pipes p).mError = false →
        ¬ EndsAt 0x4000 0x8000 ptr len ∧ ¬ WrapsBelow 0x8000 ptr len) := by
  constructor
  · intro h hr he
    rw [← ram_right_iff hl, ← kread_accepts_iff (u := k.current) hl hr he]
    exact h.accepts hr he
  · intro h
    refine ⟨fun hr he => ?_, fun hefault => ?_⟩
    · rw [kread_accepts_iff hl hr he]
      exact (ram_right_iff hl).mpr (h hr he)
    · rw [Kernel.Unmoved, Kernel.trap]
      simp only [hp, kread_refuses hefault]
      exact Kernel.unmoved_enter

theorem Kernel.checksWrite_iff (hp : k.lookup fd = some p) (hl : 0 < len.toInt) :
    k.ChecksWrite p fd ptr len bytes ↔
      ((k.pipes p).mWrtask = none → ¬ EndsAt 0x4000 0x8000 ptr len ∧
        ¬ EndsAt 0x1000000 0x2000000 ptr len ∧ ¬ WrapsBelow 0x2000000 ptr len) := by
  constructor
  · intro h hw
    rw [← mem_right_iff hl, ← kwrite_accepts_iff (u := k.current) hl hw]
    exact h.accepts hw
  · intro h
    refine ⟨fun hw => ?_, fun hefault => ?_⟩
    · rw [kwrite_accepts_iff hl hw]
      exact (mem_right_iff hl).mpr (h hw)
    · rw [Kernel.Unmoved, Kernel.trap]
      simp only [hp, kwrite_refuses hefault]
      exact Kernel.unmoved_enter

/-- The traps accept the right buffers but for those that end where a region ends and those
that wrap around. -/
theorem arguments_checked_iff (hp : k.lookup fd = some p) (hl : 0 < len.toInt) :
    k.ChecksRead p fd ptr len ∧ k.ChecksWrite p fd ptr len bytes ↔
      ((k.pipes p).mRdtask = .none → (k.pipes p).mError = false →
        ¬ EndsAt 0x4000 0x8000 ptr len ∧ ¬ WrapsBelow 0x8000 ptr len) ∧
      ((k.pipes p).mWrtask = none → ¬ EndsAt 0x4000 0x8000 ptr len ∧
        ¬ EndsAt 0x1000000 0x2000000 ptr len ∧ ¬ WrapsBelow 0x2000000 ptr len) := by
  rw [Kernel.checksRead_iff hp hl, Kernel.checksWrite_iff hp hl]

end

theorem arguments_checked_iff_startKernel :
    startKernel.ChecksRead () 3 0x4400 16 ∧ startKernel.ChecksWrite () 3 0x4400 16 [] ↔
      ((startKernel.pipes ()).mRdtask = .none → (startKernel.pipes ()).mError = false →
        ¬ EndsAt 0x4000 0x8000 0x4400 16 ∧ ¬ WrapsBelow 0x8000 0x4400 16) ∧
      ((startKernel.pipes ()).mWrtask = none → ¬ EndsAt 0x4000 0x8000 0x4400 16 ∧
        ¬ EndsAt 0x1000000 0x2000000 0x4400 16 ∧ ¬ WrapsBelow 0x2000000 0x4400 16) :=
  arguments_checked_iff (by decide) (by decide)

/-- The last 16 bytes of RAM are refused, and 32 bytes from the end of the address space on
are accepted. -/
theorem buffers_misjudged : ¬ startKernel.ChecksRead () 3 0x7ff0 16 ∧
    ¬ startKernel.ChecksRead () 3 0xfffffff0 32 := by
  constructor
  · intro h
    rw [Kernel.checksRead_iff (by decide) (by decide)] at h
    exact (h rfl rfl).1 ⟨by decide, by decide⟩
  · intro h
    rw [Kernel.checksRead_iff (by decide) (by decide)] at h
    exact (h rfl rfl).2 ⟨by decide, by decide⟩

end S6Soc.ZipOS
