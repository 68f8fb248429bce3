import S6Soc.AluFlags
import S6Soc.Assembly
import S6Soc.LoadStore

/-! `memcpy` of the library `string.c`: the loop in C, and the routine in assembly that is used in
its place. -/
namespace S6Soc.ZipString
open Assembly CpuOps
open MemDev (Size)

abbrev Mem := BitVec 32 → BitVec 8

/-- The loop of `memcpy` in C. -/
def memcpyLoop (m : Mem) (d s : BitVec 32) : ℕ → Mem
  | 0 => m
  | ln + 1 => memcpyLoop (Function.update m d (m s)) (d + 1) (s + 1) ln

/-- `memcpy` in C: the memory it leaves, and what it returns. -/
def memcpy (m : Mem) (dest src : BitVec 32) (ln : ℕ) : Mem × BitVec 32 :=
  (memcpyLoop m dest src ln, dest)

inductive Reg
  | r1 | r2 | r3 | r4 | r5 | sp
  deriving DecidableEq

/-- What a load returns, big-endian and zero-extended. -/
def load (m : Mem) (a : BitVec 32) : Size → BitVec 32
  | .word => m a ++ m (a + 1) ++ m (a + 2) ++ m (a + 3)
  | .half => (m a ++ m (a + 1)).setWidth 32
  | .byte => (m a).setWidth 32

def store (m : Mem) (a : BitVec 32) (v : BitVec 32) : Size → Mem
  | .word => Function.update (Function.update (Function.update (Function.update m
      a (v.extractLsb' 24 8)) (a + 1) (v.extractLsb' 16 8)) (a + 2) (v.extractLsb' 8 8))
      (a + 3) (v.extractLsb' 0 8)
  | .half => Function.update (Function.update m a (v.extractLsb' 8 8)) (a + 1)
      (v.extractLsb' 0 8)
  | .byte => Function.update m a (v.extractLsb' 0 8)

/-- What the routine works on, and the accesses it has made. -/
structure Core where
  reg : Reg → BitVec 32
  flags : Flags
  mem : Mem
  accesses : List (Size × BitVec 32)

inductive Op
  | cmp (k : BitVec 32) (r : Reg)
  | tst (k : BitVec 32) (r : Reg)
  | mov (r t : Reg)
  | add (k : BitVec 32) (r : Reg)
  | sub (k : BitVec 32) (r : Reg)
  | load (z : Size) (offset : BitVec 32) (base t : Reg)
  | store (z : Size) (r : Reg) (offset : BitVec 32) (base : Reg)

/-- The flags of an `AND`, whose result `TST` drops. -/
def tstFlags (a b : BitVec 32) : Flags := ⟨false, (a &&& b).msb, false, a &&& b == 0⟩

def exec : Op → Core → Core
  | .cmp k r, c => { c with flags := Arithmetic.sub.flags (c.reg r) k }
  | .tst k r, c => { c with flags := tstFlags (c.reg r) k }
  | .mov r t, c => { c with reg := Function.update c.reg t (c.reg r) }
  | .add k r, c =>
    { c with
      reg := Function.update c.reg r (c.reg r + k)
      flags := Arithmetic.add.flags (c.reg r) k }
  | .sub k r, c =>
    { c with
      reg := Function.update c.reg r (c.reg r - k)
      flags := Arithmetic.sub.flags (c.reg r) k }
  | .load z o b t, c =>
    { c with
      reg := Function.update c.reg t (ZipString.load c.mem (c.reg b + o) z)
      accesses := (z, c.reg b + o) :: c.accesses }
  | .store z r o b, c =>
    { c with
      mem := ZipString.store c.mem (c.reg b + o) (c.reg r) z
      accesses := (z, c.reg b + o) :: c.accesses }

def machine : Machine Core Op Condition where
  exec := exec
  holds k c := k.holds c.flags

inductive Label
  | preAligned | highspeed | endOfHighSpeed | halfAligned | endOfShortSpeed | unaligned | epilogue
  deriving DecidableEq

open Line Op Reg MemDev.Size Label Condition

/-- A byte copied on the way to an aligned source. -/
def alignStep : List (Line Op Condition Label) :=
  [.op (tst 3 r2),
   jump .z preAligned,
   .op (.load byte 0 r2 r5),
   .op (.store byte r5 0 r4),
   .op (add 1 r2),
   .op (add 1 r4),
   .op (sub 1 r3),
   jump .z epilogue]

/-- The text of `memcpy`, with `SB R5,(R4)` for `SB R5,(R4),R5`. -/
def routine : List (Line Op Condition Label) :=
  [.op (cmp 0 r3),
   ret .z,
   .op (mov r1 r4),
   .op (sub 4 sp),
   .op (.store word r5 0 sp)] ++
  alignStep ++ alignStep ++ alignStep ++
  [label preAligned,
   .op (tst 1 r4),
   jump .ne unaligned,
   .op (tst 2 r4),
   jump .ne halfAligned,
   label highspeed,
   .op (sub 32 r3),
   jump .lt endOfHighSpeed,
   .op (.load word 0 r2 r5),
   .op (.store word r5 0 r4),
   .op (.load word 4 r2 r5),
   .op (.store word r5 4 r4),
   .op (.load word 8 r2 r5),
   .op (.store word r5 8 r4),
   .op (.load word 12 r2 r5),
   .op (.store word r5 12 r4),
   .op (.load word 16 r2 r5),
   .op (.store word r5 16 r4),
   .op (.load word 20 r2 r5),
   .op (.store word r5 20 r4),
   .op (.load word 24 r2 r5),
   .op (.store word r5 24 r4),
   .op (.load word 28 r2 r5),
   .op (.store word r5 28 r4),
   .op (add 32 r2),
   .op (add 32 r4),
   jump .always highspeed,
   label endOfHighSpeed,
   .op (add 32 r3),
   label halfAligned,
   .op (sub 4 r3),
   jump .lt endOfShortSpeed,
   .op (.load half 0 r2 r5),
   .op (.store half r5 0 r4),
   .op (.load half 2 r2 r5),
   .op (.store half r5 2 r4),
   .op (add 4 r2),
   .op (add 4 r4),
   jump .always halfAligned,
   label endOfShortSpeed,
   .op (add 4 r3),
   label unaligned,
   .op (sub 1 r3),
   jump .lt epilogue,
   .op (.load byte 0 r2 r5),
   .op (.store byte r5 0 r4),
   .op (add 1 r2),
   .op (add 1 r4),
   jump .always unaligned,
   label epilogue,
   .op (.load word 0 sp r5),
   .op (add 4 sp),
   ret .always]

variable {m : Mem} {d s x : BitVec 32} {n i j k a : ℕ}

/-- No byte is in both ranges. -/
def Apart (d s : BitVec 32) (n : ℕ) : Prop :=
  ∀ i < n, ∀ j < n, d + BitVec.ofNat 32 i ≠ s + BitVec.ofNat 32 j

theorem add_ofNat_succ (x : BitVec 32) (j : ℕ) :
    x + BitVec.ofNat 32 (j + 1) = x + 1 + BitVec.ofNat 32 j := by
  rw [BitVec.ofNat_add, BitVec.add_comm (BitVec.ofNat 32 j), ← BitVec.add_assoc]
  rfl

theorem add_ofNat_add (x : BitVec 32) (j k : ℕ) :
    x + BitVec.ofNat 32 j + BitVec.ofNat 32 k = x + BitVec.ofNat 32 (j + k) := by
  rw [BitVec.ofNat_add, BitVec.add_assoc]

theorem add_ofNat_inj {x : BitVec 32} (hi : i < 2 ^ 32) (hj : j < 2 ^ 32)
    (h : x + BitVec.ofNat 32 i = x + BitVec.ofNat 32 j) : i = j := by
  have := congrArg BitVec.toNat (BitVec.add_right_inj x |>.1 h)
  rwa [BitVec.toNat_ofNat, BitVec.toNat_ofNat, Nat.mod_eq_of_lt hi, Nat.mod_eq_of_lt hj] at this

/-- One byte further. -/
theorem memcpyLoop_succ (m : Mem) (d s : BitVec 32) (j : ℕ) : memcpyLoop m d s (j + 1) =
    Function.update (memcpyLoop m d s j) (d + BitVec.ofNat 32 j)
      (memcpyLoop m d s j (s + BitVec.ofNat 32 j)) := by
  induction j generalizing m d s with
  | zero => simp [memcpyLoop]
  | succ j ih =>
    rw [memcpyLoop, ih, add_ofNat_succ, add_ofNat_succ]
    rfl

theorem memcpyLoop_out (hx : ∀ i < j, x ≠ d + BitVec.ofNat 32 i) :
    memcpyLoop m d s j x = m x := by
  induction j with
  | zero => rfl
  | succ j ih =>
    rw [memcpyLoop_succ, Function.update_of_ne (hx j (Nat.lt_succ_self j))]
    exact ih fun i hi => hx i (Nat.lt_succ_of_lt hi)

theorem memcpyLoop_src (h : Apart d s n) (hj : j ≤ n) (hk : k < n) :
    memcpyLoop m d s j (s + BitVec.ofNat 32 k) = m (s + BitVec.ofNat 32 k) :=
  memcpyLoop_out fun i hi => (h i (by omega) k hk).symm

theorem memcpyLoop_dest (h : Apart d s n) (hn : n ≤ 2 ^ 32) (hj : j ≤ n) (hi : i < j) :
    memcpyLoop m d s j (d + BitVec.ofNat 32 i) = m (s + BitVec.ofNat 32 i) := by
  induction j with
  | zero => omega
  | succ j ih =>
    rw [memcpyLoop_succ]
    by_cases he : i = j
    · subst he
      rw [Function.update_self]
      exact memcpyLoop_src h (by omega) (by omega)
    · rw [Function.update_of_ne]
      · exact ih (by omega) (by omega)
      · intro hx
        exact he (add_ofNat_inj (by omega) (by omega) hx)

theorem extract_half {x y : BitVec 8} : ((x ++ y).setWidth 32).extractLsb' 8 8 = x ∧
    ((x ++ y).setWidth 32).extractLsb' 0 8 = y := by
  constructor <;> ext k hk <;>
    simp only [BitVec.getElem_extractLsb', BitVec.getLsbD_setWidth, BitVec.getLsbD_append] <;>
    interval_cases k <;> simp

theorem extract_byte {x : BitVec 8} : (x.setWidth 32).extractLsb' 0 8 = x := by
  ext k hk
  simp only [BitVec.getElem_extractLsb', BitVec.getLsbD_setWidth]
  interval_cases k <;> simp

/-- A word, half a word or a byte loaded and stored is as many bytes copied. -/
theorem store_load (h : Apart d s n) (z : Size) (hj : j + z.bytes ≤ n) :
    store (memcpyLoop m d s j) (d + BitVec.ofNat 32 j)
      (load (memcpyLoop m d s j) (s + BitVec.ofNat 32 j) z) z = memcpyLoop m d s (j + z.bytes) := by
  have hstep (k : ℕ) (hk : k < z.bytes) : memcpyLoop m d s (j + (k + 1)) =
      Function.update (memcpyLoop m d s (j + k)) (d + BitVec.ofNat 32 j + BitVec.ofNat 32 k)
        (memcpyLoop m d s j (s + BitVec.ofNat 32 j + BitVec.ofNat 32 k)) := by
    rw [add_ofNat_add, add_ofNat_add, ← Nat.add_assoc, memcpyLoop_succ,
      memcpyLoop_src h (by omega) (by omega), memcpyLoop_src h (by omega) (by omega)]
  cases z with
  | word =>
    rw [Size.bytes, hstep 3 (by decide), hstep 2 (by decide), hstep 1 (by decide),
      hstep 0 (by decide), load, store, MemDev.extract_zero, MemDev.extract_one,
      MemDev.extract_two, MemDev.extract_three]
    simp
  | half =>
    rw [Size.bytes, hstep 1 (by decide), hstep 0 (by decide), load, store, extract_half.1,
      extract_half.2]
    simp
  | byte =>
    rw [Size.bytes, hstep 0 (by decide), load, store, extract_byte]
    simp

theorem dvd_toNat_add {x : BitVec 32} {b : ℕ} (hb : b ∣ 2 ^ 32) :
    b ∣ (x + BitVec.ofNat 32 k).toNat ↔ b ∣ x.toNat + k := by
  rw [BitVec.toNat_add, BitVec.toNat_ofNat, Nat.add_mod_mod, Nat.dvd_mod_iff hb]

theorem dvd_further {x : BitVec 32} {b : ℕ} (hb : b ∣ 2 ^ 32)
    (hx : b ∣ (x + BitVec.ofNat 32 i).toNat) (hk : b ∣ k) :
    b ∣ (x + BitVec.ofNat 32 (i + k)).toNat := by
  rw [dvd_toNat_add hb] at hx ⊢
  rw [← Nat.add_assoc]
  exact Nat.dvd_add hx hk

theorem and_three (x : BitVec 32) : (x &&& 3 == 0) = true ↔ 4 ∣ x.toNat := by
  rw [beq_iff_eq, ← BitVec.toNat_inj, BitVec.toNat_and]
  change x.toNat &&& (2 ^ 2 - 1) = 0 ↔ _
  rw [Nat.and_two_pow_sub_one_eq_mod, Nat.dvd_iff_mod_eq_zero]

theorem and_one (x : BitVec 32) : (x &&& 1 == 0) = true ↔ 2 ∣ x.toNat := by
  rw [beq_iff_eq, ← BitVec.toNat_inj, BitVec.toNat_and]
  change x.toNat &&& (2 ^ 1 - 1) = 0 ↔ _
  rw [Nat.and_two_pow_sub_one_eq_mod, Nat.dvd_iff_mod_eq_zero]

theorem and_two {x : BitVec 32} (h : 2 ∣ x.toNat) : (x &&& 2 == 0) = true ↔ 4 ∣ x.toNat := by
  have hx : x &&& 1 = 0 := by simpa using (and_one x).2 h
  rw [← and_three, beq_iff_eq, beq_iff_eq]
  have h3 : x &&& 3 = (x &&& 2) ||| (x &&& 1) := by
    rw [← BitVec.and_or_distrib_left]
    rfl
  rw [h3, hx]
  simp

variable {c c₀ : Core} {q : BitVec 32}

/-- An access of the size its address is made for, or to the word `R5` is saved in. -/
def Fine (c₀ : Core) (x : Size × BitVec 32) : Prop :=
  x.1.bytes ∣ x.2.toNat ∨ x = (.word, c₀.reg sp - 4)

/-- The memory with `R5` saved. -/
def Core.saved (c₀ : Core) : Mem := ZipString.store c₀.mem (c₀.reg sp - 4) (c₀.reg r5) word

/-- Called in `c₀`, the routine has copied `i` bytes, `k` more than its pointers say; its counter
is `q`. -/
structure Copying (c₀ : Core) (i k : ℕ) (q : BitVec 32) (c : Core) : Prop where
  dest : c.reg r1 = c₀.reg r1
  src : c.reg r2 = c₀.reg r2 + BitVec.ofNat 32 i
  count : c.reg r3 = q
  out : c.reg r4 = c₀.reg r1 + BitVec.ofNat 32 i
  stack : c.reg sp = c₀.reg sp - 4
  mem : c.mem = memcpyLoop c₀.saved (c₀.reg r1) (c₀.reg r2) (i + k)
  accesses : ∀ x ∈ c.accesses, Fine c₀ x

/-- The word on the stack is not among the `n` bytes from `x` on. -/
def Core.OffStack (c₀ : Core) (x : BitVec 32) (n : ℕ) : Prop :=
  ∀ i < 4, ∀ j < n, c₀.reg sp - 4 + BitVec.ofNat 32 i ≠ x + BitVec.ofNat 32 j

/-- What the routine is promised: the two ranges are apart, and what it is to copy is not in the
word below the stack. -/
structure Call (c₀ : Core) : Prop where
  short : (c₀.reg r3).toNat < 2 ^ 31
  apart : Apart (c₀.reg r1) (c₀.reg r2) (c₀.reg r3).toNat
  stack : c₀.OffStack (c₀.reg r2) (c₀.reg r3).toNat
  fresh : c₀.accesses = []

/-- What is loaded ahead of the pointers and stored there is copied. -/
theorem Copying.pair (hc : Call c₀) (h : Copying c₀ i k q c) (z : Size)
    (hn : i + k + z.bytes ≤ (c₀.reg r3).toNat)
    (hs : z.bytes ∣ (c₀.reg r2 + BitVec.ofNat 32 (i + k)).toNat)
    (hd : z.bytes ∣ (c₀.reg r1 + BitVec.ofNat 32 (i + k)).toNat) :
    Copying c₀ i (k + z.bytes) q (machine.execs
      [.load z (BitVec.ofNat 32 k) r2 r5, .store z r5 (BitVec.ofNat 32 k) r4] c) := by
  have hmem := store_load (m := c₀.saved) hc.apart z hn
  rw [← add_ofNat_add, ← h.src] at hs
  rw [← add_ofNat_add, ← h.out] at hd
  constructor
  · exact h.dest
  · exact h.src
  · exact h.count
  · exact h.out
  · exact h.stack
  · change ZipString.store c.mem (c.reg r4 + BitVec.ofNat 32 k)
      (ZipString.load c.mem (c.reg r2 + BitVec.ofNat 32 k) z) z = _
    rw [h.mem, h.out, h.src, add_ofNat_add, add_ofNat_add, hmem, Nat.add_assoc]
  · intro x hx
    rcases List.mem_cons.1 hx with rfl | hx
    · exact Or.inl hd
    · rcases List.mem_cons.1 hx with rfl | hx
      · exact Or.inl hs
      · exact h.accesses x hx

/-- The pointers catch up. -/
theorem Copying.advance (h : Copying c₀ i k q c) : Copying c₀ (i + k) 0 q (machine.execs
    [.add (BitVec.ofNat 32 k) r2, .add (BitVec.ofNat 32 k) r4] c) := by
  constructor
  · exact h.dest
  · change c.reg r2 + BitVec.ofNat 32 k = _
    rw [h.src, add_ofNat_add]
  · exact h.count
  · change c.reg r4 + BitVec.ofNat 32 k = _
    rw [h.out, add_ofNat_add]
  · exact h.stack
  · exact h.mem
  · exact h.accesses

theorem Copying.sub (h : Copying c₀ i k q c) (b : BitVec 32) :
    Copying c₀ i k (q - b) (exec (.sub b r3) c) := by
  refine ⟨h.dest, h.src, ?_, h.out, h.stack, h.mem, h.accesses⟩
  change c.reg r3 - b = _
  rw [h.count]

theorem Copying.add (h : Copying c₀ i k q c) (b : BitVec 32) :
    Copying c₀ i k (q + b) (exec (.add b r3) c) := by
  refine ⟨h.dest, h.src, ?_, h.out, h.stack, h.mem, h.accesses⟩
  change c.reg r3 + b = _
  rw [h.count]

theorem Copying.tst (h : Copying c₀ i k q c) (b : BitVec 32) (r : Reg) :
    Copying c₀ i k q (exec (.tst b r) c) :=
  ⟨h.dest, h.src, h.count, h.out, h.stack, h.mem, h.accesses⟩

theorem toInt_ofNat_small {v : ℕ} (h : v < 2 ^ 31) : (BitVec.ofNat 32 v).toInt = v := by
  rw [BitVec.toInt_eq_toNat_of_lt] <;> rw [BitVec.toNat_ofNat, Nat.mod_eq_of_lt (by omega)]
  omega

/-- `BLT` after the counter is lowered. -/
theorem lt_sub {v b : ℕ} (hv : v < 2 ^ 31) (hb : b < 2 ^ 31) (h : c.reg r3 = BitVec.ofNat 32 v) :
    machine.holds .lt (exec (.sub (BitVec.ofNat 32 b) r3) c) = decide (v < b) := by
  change decide ((c.reg r3).toInt < (BitVec.ofNat 32 b).toInt) = _
  rw [h, toInt_ofNat_small hv, toInt_ofNat_small hb]
  exact decide_eq_decide.2 Nat.cast_lt

/-- `BZ` after the counter is lowered. -/
theorem z_sub {v : ℕ} (hv : v < 2 ^ 31) (h : c.reg r3 = BitVec.ofNat 32 v) :
    machine.holds .z (exec (.sub 1 r3) c) = decide (v = 1) := by
  change (c.reg r3 == BitVec.ofNat 32 1) = _
  rw [h, Bool.eq_iff_iff, beq_iff_eq, decide_eq_true_iff]
  constructor
  · intro he
    have := congrArg BitVec.toNat he
    rwa [BitVec.toNat_ofNat, BitVec.toNat_ofNat, Nat.mod_eq_of_lt (by omega),
      Nat.mod_eq_of_lt (by decide)] at this
  · rintro rfl
    rfl

theorem ofNat_sub {v b : ℕ} (h : b ≤ v) :
    BitVec.ofNat 32 v - BitVec.ofNat 32 b = BitVec.ofNat 32 (v - b) := by
  have hv : v = v - b + b := by omega
  rw [hv, BitVec.ofNat_add, BitVec.add_sub_cancel, Nat.add_sub_cancel]

/-- A label, and the operation after it. -/
theorem goes_label_op {l : Label} (o : Op) (hl : routine[a]? = some (label l))
    (ho : routine[a + 1]? = some (.op o)) : machine.Goes routine a c (a + 2) (exec o c) :=
  (Machine.goes_label hl).trans (Machine.goes_op ho)

/-- A loop of the routine: `b` bytes a turn, as long as there are so many. -/
theorem Copying.loop (hc : Call c₀) {b : ℕ} (hb : 0 < b) (hb' : b < 2 ^ 31) {l x : Label}
    (body : List Op) {A : ℕ → Prop} (hl : routine[a]? = some (label l)) (hp : place routine l = a)
    (hs : routine[a + 1]? = some (.op (.sub (BitVec.ofNat 32 b) r3)))
    (hx : routine[a + 2]? = some (jump .lt x))
    (hbody : (routine.drop (a + 3)).take body.length = body.map .op)
    (hback : routine[a + 3 + body.length]? = some (jump .always l))
    (hturn : ∀ i c q, A i → i + b ≤ (c₀.reg r3).toNat → Copying c₀ i 0 q c →
      A (i + b) ∧ Copying c₀ (i + b) 0 q (machine.execs body c))
    (hi : i ≤ (c₀.reg r3).toNat) (hA : A i)
    (h : Copying c₀ i 0 (BitVec.ofNat 32 ((c₀.reg r3).toNat - i)) c) :
    ∃ j d, machine.Goes routine a c (place routine x) d ∧ A j ∧ i ≤ j ∧ j ≤ (c₀.reg r3).toNat ∧
      (c₀.reg r3).toNat - j < b ∧
      Copying c₀ j 0 (BitVec.ofNat 32 ((c₀.reg r3).toNat - j) - BitVec.ofNat 32 b) d := by
  have hshort := hc.short
  generalize hn : (c₀.reg r3).toNat - i = v
  induction v using Nat.strong_induction_on generalizing i c with
  | h v ih =>
    rw [hn] at h
    have hlt := lt_sub (c := c) (b := b) (by omega) hb' h.count
    have hgo := goes_label_op (c := c) _ hl hs
    by_cases hvb : v < b
    · refine ⟨i, _, hgo.trans (Machine.goes_jump hx (by rw [hlt]; exact decide_eq_true hvb)), hA,
        le_rfl, hi, by omega, ?_⟩
      rw [hn]
      exact h.sub _
    · have hon : machine.Goes routine a c a
          (machine.execs body (exec (.sub (BitVec.ofNat 32 b) r3) c)) := by
        have hj := Machine.goes_jump (M := machine)
          (c := machine.execs body (exec (.sub (BitVec.ofNat 32 b) r3) c)) hback rfl
        rw [hp] at hj
        exact ((hgo.trans (Machine.goes_on hx (by rw [hlt]; exact decide_eq_false hvb))).trans
          (Machine.goes_ops body hbody)).trans hj
      obtain ⟨hA', h'⟩ := hturn i _ _ hA (by omega) (h.sub (BitVec.ofNat 32 b))
      rw [ofNat_sub (by omega)] at h'
      obtain ⟨j, d, hg, hAj, hij, hjn, hjb, hd⟩ := ih (v - b) (by omega) (i := i + b) (by omega) hA'
        (by rw [show (c₀.reg r3).toNat - (i + b) = v - b by omega]; exact h') (by omega)
      exact ⟨j, d, hon.trans hg, hAj, by omega, hjn, hjb, hd⟩

/-- The pointers are aligned to `b` bytes after `i` bytes. -/
def Aligned (c₀ : Core) (b i : ℕ) : Prop :=
  b ∣ (c₀.reg r2 + BitVec.ofNat 32 i).toNat ∧ b ∣ (c₀.reg r1 + BitVec.ofNat 32 i).toNat

theorem Aligned.add {b : ℕ} (h : Aligned c₀ b i) (hb : b ∣ 2 ^ 32) (hk : b ∣ k) :
    Aligned c₀ b (i + k) := ⟨dvd_further hb h.1 hk, dvd_further hb h.2 hk⟩

theorem Aligned.of_dvd {b b' : ℕ} (h : Aligned c₀ b i) (hb : b' ∣ b) : Aligned c₀ b' i :=
  ⟨hb.trans h.1, hb.trans h.2⟩

/-- `pair` where the pointers are aligned. -/
theorem Copying.aligned_pair (hc : Call c₀) (h : Copying c₀ i k q c) (z : Size)
    (hA : Aligned c₀ z.bytes i) (hk : z.bytes ∣ k) (hn : i + k + z.bytes ≤ (c₀.reg r3).toNat) :
    Copying c₀ i (k + z.bytes) q (machine.execs
      [.load z (BitVec.ofNat 32 k) r2 r5, .store z r5 (BitVec.ofNat 32 k) r4] c) := by
  have hz : z.bytes ∣ 2 ^ 32 := by cases z <;> decide
  exact h.pair hc z hn (dvd_further hz hA.1 hk) (dvd_further hz hA.2 hk)

/-- `m` loads, each with its store. -/
def pairs (z : Size) : ℕ → List Op
  | 0 => []
  | m + 1 => pairs z m ++
    [.load z (BitVec.ofNat 32 (m * z.bytes)) r2 r5, .store z r5 (BitVec.ofNat 32 (m * z.bytes)) r4]

theorem Copying.pairs (hc : Call c₀) (h : Copying c₀ i 0 q c) (z : Size) (hA : Aligned c₀ z.bytes i)
    {m : ℕ} (hn : i + m * z.bytes ≤ (c₀.reg r3).toNat) :
    Copying c₀ i (m * z.bytes) q (machine.execs (ZipString.pairs z m) c) := by
  induction m with
  | zero =>
    rw [Nat.zero_mul]
    exact h
  | succ m ih =>
    rw [Nat.succ_mul] at hn ⊢
    rw [ZipString.pairs, Machine.execs_append]
    exact (ih (by omega)).aligned_pair hc z hA (Nat.dvd_mul_left _ _) (by omega)

/-- A turn of a loop: `m` pairs, and the pointers moved. -/
def turn (z : Size) (m : ℕ) : List Op :=
  pairs z m ++ [.add (BitVec.ofNat 32 (m * z.bytes)) r2, .add (BitVec.ofNat 32 (m * z.bytes)) r4]

theorem Copying.turn (hc : Call c₀) (z : Size) (m : ℕ) (hA : Aligned c₀ z.bytes i)
    (hn : i + m * z.bytes ≤ (c₀.reg r3).toNat) (h : Copying c₀ i 0 q c) :
    Aligned c₀ z.bytes (i + m * z.bytes) ∧
      Copying c₀ (i + m * z.bytes) 0 q (machine.execs (ZipString.turn z m) c) := by
  have hz : z.bytes ∣ 2 ^ 32 := by cases z <;> decide
  refine ⟨hA.add hz (Nat.dvd_mul_left _ _), ?_⟩
  rw [ZipString.turn, Machine.execs_append]
  exact (h.pairs hc z hA hn).advance

/-- Both pointers aligned, eight words at a time. -/
theorem Copying.words (hc : Call c₀) (hi : i ≤ (c₀.reg r3).toNat) (hA : Aligned c₀ 4 i)
    (h : Copying c₀ i 0 (BitVec.ofNat 32 ((c₀.reg r3).toNat - i)) c) :
    ∃ j d, machine.Goes routine 34 c 56 d ∧ Aligned c₀ 4 j ∧ i ≤ j ∧ j ≤ (c₀.reg r3).toNat ∧
      (c₀.reg r3).toNat - j < 32 ∧
      Copying c₀ j 0 (BitVec.ofNat 32 ((c₀.reg r3).toNat - j) - BitVec.ofNat 32 32) d :=
  h.loop hc (l := highspeed) (x := endOfHighSpeed) (by decide) (by decide)
    (ZipString.turn word 8) rfl (by decide) rfl rfl rfl rfl
    (fun _ _ _ hA hn h => h.turn hc word 8 hA hn) hi hA

/-- Both pointers even, two halves of a word at a time. -/
theorem Copying.halves (hc : Call c₀) (hi : i ≤ (c₀.reg r3).toNat) (hA : Aligned c₀ 2 i)
    (h : Copying c₀ i 0 (BitVec.ofNat 32 ((c₀.reg r3).toNat - i)) c) :
    ∃ j d, machine.Goes routine 58 c 68 d ∧ Aligned c₀ 2 j ∧ i ≤ j ∧ j ≤ (c₀.reg r3).toNat ∧
      (c₀.reg r3).toNat - j < 4 ∧
      Copying c₀ j 0 (BitVec.ofNat 32 ((c₀.reg r3).toNat - j) - BitVec.ofNat 32 4) d :=
  h.loop hc (l := halfAligned) (x := endOfShortSpeed) (by decide) (by decide)
    (ZipString.turn half 2) rfl (by decide) rfl rfl rfl rfl
    (fun _ _ _ hA hn h => h.turn hc half 2 hA hn) hi hA

theorem aligned_one (i : ℕ) : Aligned c₀ 1 i := ⟨one_dvd _, one_dvd _⟩

/-- The rest, a byte at a time. -/
theorem Copying.bytes (hc : Call c₀) (hi : i ≤ (c₀.reg r3).toNat)
    (h : Copying c₀ i 0 (BitVec.ofNat 32 ((c₀.reg r3).toNat - i)) c) :
    ∃ q d, machine.Goes routine 70 c 78 d ∧ Copying c₀ (c₀.reg r3).toNat 0 q d := by
  obtain ⟨j, d, hg, -, -, hjn, hj, hd⟩ := h.loop hc (l := Label.unaligned) (x := epilogue)
    (a := 70) (b := 1) (by decide) (by decide) (ZipString.turn byte 1) rfl (by decide) rfl rfl rfl
    rfl (fun _ _ _ hA hn h => h.turn hc byte 1 hA hn) hi (aligned_one i)
  obtain rfl : j = (c₀.reg r3).toNat := by omega
  exact ⟨_, d, hg, hd⟩

theorem Copying.from_half (hc : Call c₀) (hi : i ≤ (c₀.reg r3).toNat) (hA : Aligned c₀ 2 i)
    (h : Copying c₀ i 0 (BitVec.ofNat 32 ((c₀.reg r3).toNat - i)) c) :
    ∃ q d, machine.Goes routine 58 c 78 d ∧ Copying c₀ (c₀.reg r3).toNat 0 q d := by
  obtain ⟨j, d, hg, -, -, hjn, -, hd⟩ := h.halves hc hi hA
  have hd' := hd.add (BitVec.ofNat 32 4)
  rw [BitVec.sub_add_cancel] at hd'
  obtain ⟨q, f, hg', hf⟩ := hd'.bytes hc hjn
  have h68 := goes_label_op (a := 68) (c := d) (l := endOfShortSpeed)
    (.add (BitVec.ofNat 32 4) r3) rfl rfl
  exact ⟨q, f, (hg.trans h68).trans hg', hf⟩

theorem Copying.from_words (hc : Call c₀) (hi : i ≤ (c₀.reg r3).toNat) (hA : Aligned c₀ 4 i)
    (h : Copying c₀ i 0 (BitVec.ofNat 32 ((c₀.reg r3).toNat - i)) c) :
    ∃ q d, machine.Goes routine 34 c 78 d ∧ Copying c₀ (c₀.reg r3).toNat 0 q d := by
  obtain ⟨j, d, hg, hA', -, hjn, -, hd⟩ := h.words hc hi hA
  have hd' := hd.add (BitVec.ofNat 32 32)
  rw [BitVec.sub_add_cancel] at hd'
  obtain ⟨q, f, hg', hf⟩ := hd'.from_half hc hjn (hA'.of_dvd (by decide))
  have h56 := goes_label_op (a := 56) (c := d) (l := endOfHighSpeed)
    (.add (BitVec.ofNat 32 32) r3) rfl rfl
  exact ⟨q, f, (hg.trans h56).trans hg', hf⟩

/-- The source is aligned; the destination decides how the rest is copied. -/
theorem Copying.from_aligned (hc : Call c₀) (hi : i ≤ (c₀.reg r3).toNat)
    (hs : 4 ∣ (c₀.reg r2 + BitVec.ofNat 32 i).toNat)
    (h : Copying c₀ i 0 (BitVec.ofNat 32 ((c₀.reg r3).toNat - i)) c) :
    ∃ q d, machine.Goes routine 29 c 78 d ∧ Copying c₀ (c₀.reg r3).toNat 0 q d := by
  have h₁ := h.tst 1 r4
  have h₂ := h₁.tst 2 r4
  have hout : c.reg r4 = c₀.reg r1 + BitVec.ofNat 32 i := h.out
  have hne₁ : machine.holds .ne (exec (.tst 1 r4) c) = !(c.reg r4 &&& 1 == 0) := rfl
  have hne₂ : machine.holds .ne (exec (.tst 2 r4) (exec (.tst 1 r4) c)) =
      !(c.reg r4 &&& 2 == 0) := rfl
  have hg₁ := goes_label_op (a := 29) (c := c) (l := preAligned) (.tst 1 r4) rfl rfl
  have hg₂ : machine.Goes routine 32 (exec (.tst 1 r4) c) 33
      (exec (.tst 2 r4) (exec (.tst 1 r4) c)) :=
    Machine.goes_op (M := machine) (a := 32) (o := .tst 2 r4) rfl
  by_cases he : 2 ∣ (c.reg r4).toNat
  swap
  · have hh : machine.holds .ne (exec (.tst 1 r4) c) = true := by
      rw [hne₁, Bool.not_eq_true', ← Bool.not_eq_true, and_one]
      exact he
    obtain ⟨q, d, hg, hd⟩ := h₁.bytes hc hi
    exact ⟨q, d, (hg₁.trans (Machine.goes_jump (l := Label.unaligned) rfl hh)).trans hg, hd⟩
  have hh₁ : machine.holds .ne (exec (.tst 1 r4) c) = false := by
    rw [hne₁, (and_one _).2 he]
    rfl
  have hg₃ := (hg₁.trans (Machine.goes_on (l := Label.unaligned) rfl hh₁)).trans hg₂
  by_cases hf : 4 ∣ (c.reg r4).toNat
  swap
  · have hh : machine.holds .ne (exec (.tst 2 r4) (exec (.tst 1 r4) c)) = true := by
      rw [hne₂, Bool.not_eq_true', ← Bool.not_eq_true, and_two he]
      exact hf
    obtain ⟨q, d, hg, hd⟩ := h₂.from_half hc hi
      ⟨dvd_trans (by decide) hs, hout ▸ he⟩
    exact ⟨q, d, (hg₃.trans (Machine.goes_jump (l := halfAligned) rfl hh)).trans hg, hd⟩
  have hh₂ : machine.holds .ne (exec (.tst 2 r4) (exec (.tst 1 r4) c)) = false := by
    rw [hne₂, (and_two he).2 hf]
    rfl
  obtain ⟨q, d, hg, hd⟩ := h₂.from_words hc hi ⟨hs, hout ▸ hf⟩
  exact ⟨q, d, (hg₃.trans (Machine.goes_on (l := halfAligned) rfl hh₂)).trans hg, hd⟩

/-- One of the three steps: the source is aligned, or a byte is copied, perhaps the last. -/
theorem Copying.align (hc : Call c₀) (hi : i < (c₀.reg r3).toNat)
    (hp : (routine.drop a).take 8 = alignStep)
    (h : Copying c₀ i 0 (BitVec.ofNat 32 ((c₀.reg r3).toNat - i)) c) :
    ∃ d, (4 ∣ (c₀.reg r2 + BitVec.ofNat 32 i).toNat ∧ machine.Goes routine a c 29 d ∧
        Copying c₀ i 0 (BitVec.ofNat 32 ((c₀.reg r3).toNat - i)) d) ∨
      (¬ 4 ∣ (c₀.reg r2 + BitVec.ofNat 32 i).toNat ∧
        Copying c₀ (i + 1) 0 (BitVec.ofNat 32 ((c₀.reg r3).toNat - (i + 1))) d ∧
        ((i + 1 = (c₀.reg r3).toNat ∧ machine.Goes routine a c 78 d) ∨
          (i + 1 < (c₀.reg r3).toNat ∧ machine.Goes routine a c (a + 8) d))) := by
  have hshort := hc.short
  have hl (t : ℕ) (ht : t < 8) : routine[a + t]? = alignStep[t]? := by
    rw [← hp, List.getElem?_take, if_pos ht, List.getElem?_drop]
  have h₁ := h.tst 3 r2
  have hg₁ : machine.Goes routine a c (a + 1) (exec (.tst 3 r2) c) :=
    Machine.goes_op (M := machine) (hl 0 (by decide))
  have hz : machine.holds .z (exec (.tst 3 r2) c) = (c.reg r2 &&& 3 == 0) := rfl
  rw [h.src] at hz
  by_cases hs : 4 ∣ (c₀.reg r2 + BitVec.ofNat 32 i).toNat
  · rw [(and_three _).2 hs] at hz
    have hj := Machine.goes_jump (l := preAligned) (hl 1 (by decide)) hz
    exact ⟨_, Or.inl ⟨hs, hg₁.trans hj, h₁⟩⟩
  · have hz' : machine.holds .z (exec (.tst 3 r2) c) = false := by
      rw [hz, ← Bool.not_eq_true, and_three]
      exact hs
    have hg₂ := hg₁.trans (Machine.goes_on (l := preAligned) (hl 1 (by decide)) hz')
    have hblock : (routine.drop (a + 2)).take 4 = (ZipString.turn byte 1).map .op := by
      have hd : (routine.drop (a + 2)).take 4 = (((routine.drop a).take 8).drop 2).take 4 := by
        rw [List.drop_take, List.take_take, List.drop_drop]
        rfl
      rw [hd, hp]
      rfl
    have hg₃ := hg₂.trans (Machine.goes_ops (M := machine) (ZipString.turn byte 1) hblock)
    obtain ⟨-, h₂⟩ := h₁.turn hc byte 1 (aligned_one i) hi
    have h₃ := h₂.sub (BitVec.ofNat 32 1)
    rw [ofNat_sub (by omega), Nat.sub_sub] at h₃
    have hg₄ := hg₃.trans (Machine.goes_op (M := machine) (hl 6 (by decide)))
    have hz₆ := z_sub (v := (c₀.reg r3).toNat - i) (by omega) h₂.count
    refine ⟨_, Or.inr ⟨hs, h₃, ?_⟩⟩
    by_cases he : i + 1 = (c₀.reg r3).toNat
    · left
      refine ⟨he, hg₄.trans (Machine.goes_jump (l := epilogue) (hl 7 (by decide)) ?_)⟩
      exact hz₆.trans (decide_eq_true (by omega))
    · right
      refine ⟨by omega, hg₄.trans (Machine.goes_on (l := epilogue) (hl 7 (by decide)) ?_)⟩
      exact hz₆.trans (decide_eq_false (by omega))

/-- Three bytes at most are copied before the source is aligned. -/
theorem Copying.from_start (hc : Call c₀) (hn : 0 < (c₀.reg r3).toNat)
    (h : Copying c₀ 0 0 (BitVec.ofNat 32 (c₀.reg r3).toNat) c) :
    ∃ q d, machine.Goes routine 5 c 78 d ∧ Copying c₀ (c₀.reg r3).toNat 0 q d := by
  have hdvd (k : ℕ) : 4 ∣ (c₀.reg r2 + BitVec.ofNat 32 k).toNat ↔ 4 ∣ (c₀.reg r2).toNat + k :=
    dvd_toNat_add (by decide)
  have hend {i a : ℕ} {c : Core} (hi : i < (c₀.reg r3).toNat)
      (hp : (routine.drop a).take 8 = alignStep)
      (h : Copying c₀ i 0 (BitVec.ofNat 32 ((c₀.reg r3).toNat - i)) c) :
      (∃ q d, machine.Goes routine a c 78 d ∧ Copying c₀ (c₀.reg r3).toNat 0 q d) ∨
        (¬ 4 ∣ (c₀.reg r2).toNat + i ∧ i + 1 < (c₀.reg r3).toNat ∧
          ∃ d, machine.Goes routine a c (a + 8) d ∧
            Copying c₀ (i + 1) 0 (BitVec.ofNat 32 ((c₀.reg r3).toNat - (i + 1))) d) := by
    obtain ⟨d, ⟨hs, hg, hd⟩ | ⟨hs, hd, ⟨he, hg⟩ | ⟨hlt, hg⟩⟩⟩ := h.align hc hi hp
    · obtain ⟨q, f, hg', hf⟩ := hd.from_aligned hc (Nat.le_of_lt hi) hs
      exact Or.inl ⟨q, f, hg.trans hg', hf⟩
    · rw [he] at hd
      exact Or.inl ⟨_, d, hg, hd⟩
    · exact Or.inr ⟨by rwa [← hdvd], hlt, d, hg, hd⟩
  rcases hend hn (a := 5) rfl h with hd | ⟨h₀, hn₁, d₁, hg₁, hd₁⟩
  · exact hd
  rcases hend hn₁ (a := 13) rfl hd₁ with ⟨q, f, hg, hf⟩ | ⟨h₁, hn₂, d₂, hg₂, hd₂⟩
  · exact ⟨q, f, hg₁.trans hg, hf⟩
  rcases hend hn₂ (a := 21) rfl hd₂ with ⟨q, f, hg, hf⟩ | ⟨h₂, hn₃, d₃, hg₃, hd₃⟩
  · exact ⟨q, f, (hg₁.trans hg₂).trans hg, hf⟩
  -- of four addresses in a row one is aligned
  obtain ⟨q, f, hg, hf⟩ := hd₃.from_aligned hc (Nat.le_of_lt hn₃) (by rw [hdvd]; omega)
  exact ⟨q, f, ((hg₁.trans hg₂).trans hg₃).trans hg, hf⟩

/-- What a call leaves is what `memcpy` in C leaves, but for the word saved on the stack. -/
structure Copied (c₀ c : Core) : Prop where
  result : c.reg r1 = (memcpy c₀.mem (c₀.reg r1) (c₀.reg r2) (c₀.reg r3).toNat).2
  mem : ∀ x, (∀ i < 4, x ≠ c₀.reg sp - 4 + BitVec.ofNat 32 i) →
    c.mem x = (memcpy c₀.mem (c₀.reg r1) (c₀.reg r2) (c₀.reg r3).toNat).1 x
  copied : ∀ i < (c₀.reg r3).toNat,
    c.mem (c₀.reg r1 + BitVec.ofNat 32 i) = c₀.mem (c₀.reg r2 + BitVec.ofNat 32 i)
  others : ∀ x, (∀ i < 4, x ≠ c₀.reg sp - 4 + BitVec.ofNat 32 i) →
    (∀ i < (c₀.reg r3).toNat, x ≠ c₀.reg r1 + BitVec.ofNat 32 i) → c.mem x = c₀.mem x
  kept : c.reg sp = c₀.reg sp ∧
    (c₀.OffStack (c₀.reg r1) (c₀.reg r3).toNat → c.reg r5 = c₀.reg r5)
  aligned : ∀ x ∈ c.accesses, Fine c₀ x

theorem saved_out (hx : ∀ i < 4, x ≠ c₀.reg sp - 4 + BitVec.ofNat 32 i) :
    c₀.saved x = c₀.mem x := by
  have h₀ := hx 0 (by decide)
  have h₁ : x ≠ c₀.reg sp - 4 + 1 := hx 1 (by decide)
  have h₂ : x ≠ c₀.reg sp - 4 + 2 := hx 2 (by decide)
  have h₃ : x ≠ c₀.reg sp - 4 + 3 := hx 3 (by decide)
  rw [BitVec.add_zero] at h₀
  rw [Core.saved, store, Function.update_of_ne h₃, Function.update_of_ne h₂,
    Function.update_of_ne h₁, Function.update_of_ne h₀]

theorem append_extract (v : BitVec 32) : v.extractLsb' 24 8 ++ v.extractLsb' 16 8 ++
    v.extractLsb' 8 8 ++ v.extractLsb' 0 8 = v := by
  apply BitVec.eq_of_getLsbD_eq
  intro k hk
  simp only [BitVec.getLsbD_append, BitVec.getLsbD_extractLsb']
  interval_cases k <;> simp

theorem load_store (m : Mem) (x v : BitVec 32) :
    ZipString.load (ZipString.store m x v word) x word = v := by
  have hne {i j : ℕ} (hi : i < 4) (hj : j < 4) (h : i ≠ j) :
      x + BitVec.ofNat 32 i ≠ x + BitVec.ofNat 32 j :=
    fun he => h (add_ofNat_inj (by omega) (by omega) he)
  have h₀₁ : x ≠ x + 1 := by simp
  have h₀₂ : x ≠ x + 2 := by simp
  have h₀₃ : x ≠ x + 3 := by simp
  have h₁₂ : x + 1 ≠ x + 2 := hne (i := 1) (j := 2) (by decide) (by decide) (by decide)
  have h₁₃ : x + 1 ≠ x + 3 := hne (i := 1) (j := 3) (by decide) (by decide) (by decide)
  have h₂₃ : x + 2 ≠ x + 3 := hne (i := 2) (j := 3) (by decide) (by decide) (by decide)
  rw [ZipString.load, ZipString.store, Function.update_self, Function.update_of_ne h₂₃,
    Function.update_self, Function.update_of_ne h₁₃, Function.update_of_ne h₁₂,
    Function.update_self, Function.update_of_ne h₀₃, Function.update_of_ne h₀₂,
    Function.update_of_ne h₀₁, Function.update_self]
  exact append_extract v

/-- The word saved is the word restored. -/
theorem load_saved (hd : c₀.OffStack (c₀.reg r1) (c₀.reg r3).toNat) : ZipString.load
    (memcpyLoop c₀.saved (c₀.reg r1) (c₀.reg r2) (c₀.reg r3).toNat) (c₀.reg sp - 4) word =
      c₀.reg r5 := by
  have hb (i : ℕ) (hi : i < 4) :
      memcpyLoop c₀.saved (c₀.reg r1) (c₀.reg r2) (c₀.reg r3).toNat
        (c₀.reg sp - 4 + BitVec.ofNat 32 i) = c₀.saved (c₀.reg sp - 4 + BitVec.ofNat 32 i) :=
    memcpyLoop_out fun j hj => hd i hi j hj
  have h₀ := hb 0 (by decide)
  rw [BitVec.add_zero] at h₀
  rw [ZipString.load, h₀]
  refine Eq.trans ?_ (load_store c₀.mem (c₀.reg sp - 4) (c₀.reg r5))
  exact congrArg₂ (· ++ ·) (congrArg₂ (· ++ ·) (congrArg _ (hb 1 (by decide))) (hb 2 (by decide)))
    (hb 3 (by decide))

/-- The bytes of the memory the copying leaves. -/
theorem copied_mem (hc : Call c₀) {M : Mem}
    (h : M = memcpyLoop c₀.saved (c₀.reg r1) (c₀.reg r2) (c₀.reg r3).toNat) :
    (∀ i < (c₀.reg r3).toNat,
      M (c₀.reg r1 + BitVec.ofNat 32 i) = c₀.mem (c₀.reg r2 + BitVec.ofNat 32 i)) ∧
    ∀ x, (∀ i < 4, x ≠ c₀.reg sp - 4 + BitVec.ofNat 32 i) →
      (∀ i < (c₀.reg r3).toNat, x ≠ c₀.reg r1 + BitVec.ofNat 32 i) → M x = c₀.mem x := by
  have hshort := hc.short
  subst h
  constructor
  · intro i hi
    rw [memcpyLoop_dest hc.apart (by omega) le_rfl hi]
    exact saved_out fun j hj => (hc.stack j hj i hi).symm
  · intro x hs hx
    rw [memcpyLoop_out hx, saved_out hs]

theorem memcpyLoop_congr {m' : Mem} (ha : Apart d s n) (hn : n ≤ 2 ^ 32)
    (hs : ∀ i < n, m (s + BitVec.ofNat 32 i) = m' (s + BitVec.ofNat 32 i))
    (hx : (∀ i < n, x ≠ d + BitVec.ofNat 32 i) → m x = m' x) :
    memcpyLoop m d s n x = memcpyLoop m' d s n x := by
  by_cases h : ∃ i < n, x = d + BitVec.ofNat 32 i
  · obtain ⟨i, hi, rfl⟩ := h
    rw [memcpyLoop_dest ha hn le_rfl hi, memcpyLoop_dest ha hn le_rfl hi, hs i hi]
  · have ho : ∀ i < n, x ≠ d + BitVec.ofNat 32 i := fun i hi he => h ⟨i, hi, he⟩
    rw [memcpyLoop_out ho, memcpyLoop_out ho, hx ho]

/-- All bytes copied, the routine restores `R5` and the stack, and returns. -/
theorem Copying.finish (hc : Call c₀) (h : Copying c₀ (c₀.reg r3).toNat 0 q c) :
    ∃ d, machine.Ends routine 78 c d ∧ Copied c₀ d := by
  have hshort := hc.short
  have hg := goes_label_op (a := 78) (c := c) (l := epilogue) (.load word 0 sp r5) rfl rfl
  have hg' := hg.trans (Machine.goes_op (M := machine) (o := .add 4 sp) rfl)
  refine ⟨_, hg'.ends (Machine.ends_ret (k := Condition.always) rfl rfl), ?_⟩
  have hmem : c.mem = memcpyLoop c₀.saved (c₀.reg r1) (c₀.reg r2) (c₀.reg r3).toNat := h.mem
  obtain ⟨hcopied, hothers⟩ := copied_mem hc hmem
  constructor
  · exact h.dest
  · intro x hx
    change c.mem x = memcpyLoop c₀.mem (c₀.reg r1) (c₀.reg r2) (c₀.reg r3).toNat x
    rw [hmem]
    exact memcpyLoop_congr hc.apart (by omega)
      (fun i hi => saved_out fun j hj => (hc.stack j hj i hi).symm) fun _ => saved_out hx
  · exact hcopied
  · exact hothers
  · constructor
    · change c.reg sp + 4 = _
      rw [h.stack, BitVec.sub_add_cancel]
    · intro hd
      change ZipString.load c.mem (c.reg sp + 0) word = _
      rw [hmem, h.stack, add_zero]
      exact load_saved hd
  · intro x hx
    rcases List.mem_cons.1 hx with rfl | hx
    · right
      rw [h.stack, add_zero]
    · exact h.accesses x hx

theorem z_cmp (c : Core) :
    machine.holds .z (exec (.cmp 0 r3) c) = decide ((c.reg r3).toNat = 0) := by
  change (c.reg r3 == 0) = _
  rw [Bool.eq_iff_iff, beq_iff_eq, decide_eq_true_iff, ← BitVec.toNat_inj]
  rfl

/-- Without a byte to copy it returns at once. -/
theorem returns_at_once (hc : Call c₀) (hn : (c₀.reg r3).toNat = 0) :
    ∃ d, machine.Ends routine 0 c₀ d ∧ Copied c₀ d := by
  have hg := Machine.goes_op (M := machine) (p := routine) (a := 0) (c := c₀) (o := .cmp 0 r3) rfl
  have hz := z_cmp c₀
  rw [hn] at hz
  refine ⟨_, hg.ends (Machine.ends_ret (k := Condition.z) rfl hz), ?_⟩
  constructor
  · rfl
  · intro x _
    change c₀.mem x = memcpyLoop c₀.mem (c₀.reg r1) (c₀.reg r2) (c₀.reg r3).toNat x
    rw [hn]
    rfl
  · intro i hi
    omega
  · exact fun _ _ _ => rfl
  · exact ⟨rfl, fun _ => rfl⟩
  · intro x hx
    change x ∈ c₀.accesses at hx
    rw [hc.fresh] at hx
    cases hx

/-- The registers and the stack set up. -/
theorem starts (hc : Call c₀) (hn : 0 < (c₀.reg r3).toNat) :
    ∃ d, machine.Goes routine 0 c₀ 5 d ∧
      Copying c₀ 0 0 (BitVec.ofNat 32 (c₀.reg r3).toNat) d := by
  have hg := Machine.goes_op (M := machine) (p := routine) (a := 0) (c := c₀) (o := .cmp 0 r3) rfl
  have hz := (z_cmp c₀).trans (decide_eq_false (Nat.pos_iff_ne_zero.1 hn))
  have hg' := hg.trans (Machine.goes_past_ret (k := Condition.z) rfl hz)
  refine ⟨_, hg'.trans (Machine.goes_ops (M := machine)
    [.mov r1 r4, .sub 4 sp, .store word r5 0 sp] rfl), ?_⟩
  constructor
  · rfl
  · exact (BitVec.add_zero _).symm
  · exact BitVec.eq_of_toNat_eq (by rw [BitVec.toNat_ofNat, Nat.mod_eq_of_lt (c₀.reg r3).isLt]; rfl)
  · exact (BitVec.add_zero _).symm
  · rfl
  · change ZipString.store c₀.mem (c₀.reg sp - 4 + 0) (c₀.reg r5) word = c₀.saved
    rw [add_zero]
    rfl
  · intro x hx
    rcases List.mem_cons.1 hx with rfl | hx
    · right
      change (word, c₀.reg sp - 4 + 0) = _
      rw [add_zero]
    · change x ∈ c₀.accesses at hx
      rw [hc.fresh] at hx
      cases hx

/-- Called with fewer than `2 ^ 31` bytes to copy, the routine returns, and has copied them as
`memcpy` in C does, with no word or half of one accessed out of place. -/
theorem routine_copies (c₀ : Core) (hc : Call c₀) :
    ∃ c, machine.Ends routine 0 c₀ c ∧ Copied c₀ c := by
  rcases Nat.eq_zero_or_pos (c₀.reg r3).toNat with hn | hn
  · exact returns_at_once hc hn
  · obtain ⟨d, hg, hd⟩ := starts hc hn
    obtain ⟨q, f, hg', hf⟩ := hd.from_start hc hn
    obtain ⟨c, he, hcopied⟩ := hf.finish hc
    exact ⟨c, (hg.trans hg').ends he, hcopied⟩

/-- Five bytes, neither pointer aligned. -/
def fiveBytes : Core where
  reg
    | r1 => 0x1001
    | r2 => 0x2002
    | r3 => 5
    | r4 => 0
    | r5 => 7
    | sp => 0x8000
  flags := ⟨false, false, false, false⟩
  mem x := x.setWidth 8
  accesses := []

theorem routine_copies_five :
    ∃ c, machine.Ends routine 0 fiveBytes c ∧ c.mem 0x1005 = 6 ∧ c.reg r1 = 0x1001 := by
  have ha : Apart (fiveBytes.reg r1) (fiveBytes.reg r2) 5 := by
    unfold Apart
    decide
  have hs : fiveBytes.OffStack (fiveBytes.reg r2) 5 := by
    unfold Core.OffStack
    decide
  obtain ⟨c, he, hc⟩ := routine_copies fiveBytes ⟨by decide, ha, hs, rfl⟩
  exact ⟨c, he, hc.copied 4 (by decide), hc.result⟩

end S6Soc.ZipString
