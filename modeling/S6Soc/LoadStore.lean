import Mathlib
import S6Soc.Clocked
import S6Soc.MemOps

/-! Loads and stores of the memory unit `memops` on the block RAM `memdev`: together they
are a big-endian byte memory. -/
namespace S6Soc.MemDev
open Clocked

structure State (aw : Nat) where
  mem : BitVec aw → BitVec 32
  oWbAck : Bool
  oWbData : BitVec 32

structure Input (aw : Nat) where
  iWbStb : Bool
  iWbWe : Bool
  iWbAddr : BitVec aw
  iWbData : BitVec 32
  iWbSel : BitVec 4

/-- The lanes of a word that `sel` lets through. -/
def lanes (sel : BitVec 4) (new old : BitVec 32) : BitVec 32 :=
  (if sel.getLsbD 3 then new.extractLsb' 24 8 else old.extractLsb' 24 8) ++
    (if sel.getLsbD 2 then new.extractLsb' 16 8 else old.extractLsb' 16 8) ++
    (if sel.getLsbD 1 then new.extractLsb' 8 8 else old.extractLsb' 8 8) ++
    (if sel.getLsbD 0 then new.extractLsb' 0 8 else old.extractLsb' 0 8)

def step {aw : Nat} (s : State aw) (i : Input aw) : State aw where
  mem :=
    if i.iWbStb && i.iWbWe then
      Function.update s.mem i.iWbAddr (lanes i.iWbSel i.iWbData (s.mem i.iWbAddr))
    else s.mem
  oWbAck := i.iWbStb
  oWbData := s.mem i.iWbAddr

inductive Size
  | word
  | half
  | byte
  deriving DecidableEq

abbrev Bytes := BitVec 14 → BitVec 8

def Size.bytes : Size → Nat
  | .word => 4
  | .half => 2
  | .byte => 1

/-- What a load returns, big-endian and zero-extended. -/
def load (m : Bytes) (a : BitVec 14) : Size → BitVec 32
  | .word => m a ++ m (a + 1) ++ m (a + 2) ++ m (a + 3)
  | .half => (m a ++ m (a + 1)).setWidth 32
  | .byte => (m a).setWidth 32

def store (m : Bytes) (a : BitVec 14) (d : BitVec 32) : Size → Bytes
  | .word => Function.update (Function.update (Function.update (Function.update m
      a (d.extractLsb' 24 8)) (a + 1) (d.extractLsb' 16 8)) (a + 2) (d.extractLsb' 8 8))
      (a + 3) (d.extractLsb' 0 8)
  | .half => Function.update (Function.update m a (d.extractLsb' 8 8)) (a + 1)
      (d.extractLsb' 0 8)
  | .byte => Function.update m a (d.extractLsb' 0 8)

/-- LW, SW, LH, SH, LB or SB. -/
structure Op where
  store : Bool
  size : Size
  addr : BitVec 32
  data : BitVec 32
  reg : BitVec 5
  deriving DecidableEq

/-- `i_op`. -/
def Op.code (o : Op) : BitVec 3 :=
  (match o.size with
    | .word => (1 : BitVec 2)
    | .half => 2
    | .byte => 3) ++ BitVec.ofBool o.store

/-- The byte in the memory. -/
def Op.offset (o : Op) : BitVec 14 := o.addr.setWidth 14

/-- The place of the first byte in its word, and the word in the memory. -/
def Op.place (o : Op) : BitVec 2 := o.addr.extractLsb' 0 2

def Op.wordAt (o : Op) : BitVec 12 := o.addr.extractLsb' 2 12

/-- `r_op` of an operation. -/
def Op.rOp (o : Op) : BitVec 4 := MemOps.size o.code ++ o.place

/-- The address lies in the memory and is aligned for the size. -/
def Op.Fits (o : Op) : Prop :=
  0x4000 ≤ o.addr ∧ o.addr < 0x8000 ∧ o.addr.toNat % o.size.bytes = 0

instance (o : Op) : Decidable o.Fits := inferInstanceAs (Decidable (_ ∧ _ ∧ _))

/-- `bytes` is the memory as the operations issued so far leave it, and `due` what the last
load issued is to return, and where to. -/
structure Path where
  ops : MemOps.State 23
  ram : State 12
  bytes : Bytes
  due : Option (BitVec 5 × BitVec 32)

/-- An operation the CPU issues, and whether the bus is someone else's. -/
structure Clock where
  op : Option Op
  held : Bool

def Path.opsInput (s : Path) (i : Clock) : MemOps.Input where
  iReset := false
  iStb := i.op.isSome
  iLock := false
  iOp := (i.op.map Op.code).getD 0
  iAddr := (i.op.map Op.addr).getD 0
  iData := (i.op.map Op.data).getD 0
  iOreg := (i.op.map Op.reg).getD 0
  iWbAck := s.ram.oWbAck
  iWbStall := i.held
  iWbErr := false
  iWbData := s.ram.oWbData

def Path.ramInput (s : Path) (i : Clock) : Input 12 where
  iWbStb := s.ops.oWbStbGbl && !i.held
  iWbWe := s.ops.oWbWe
  iWbAddr := s.ops.oWbAddr.setWidth 12
  iWbData := s.ops.oWbData
  iWbSel := s.ops.oWbSel

def Path.next (s : Path) (i : Clock) : Path where
  ops := MemOps.step s.ops (s.opsInput i)
  ram := step s.ram (s.ramInput i)
  bytes :=
    match i.op with
    | some o => if o.store then MemDev.store s.bytes o.offset o.data o.size else s.bytes
    | none => s.bytes
  due :=
    match i.op with
    | some o => if o.store then none else some (o.reg, load s.bytes o.offset o.size)
    | none => s.due

/-- The words of the memory are those of a byte memory. -/
def Agrees (mem : BitVec 12 → BitVec 32) (m : Bytes) : Prop :=
  ∀ w : BitVec 12, mem w = load m (w ++ (0 : BitVec 2)) .word

structure Path.Init (s : Path) : Prop where
  cyc : s.ops.rWbCycGbl = false
  lock : s.ops.lockGbl = false
  stb : s.ops.oWbStbGbl = false
  valid : s.ops.oValid = false
  bytes : Agrees s.ram.mem s.bytes

/-- The CPU issues an operation when the unit is not busy. -/
def Path.Enabled (s : Path) (i : Clock) : Prop :=
  ∀ o ∈ i.op, s.ops.oBusy = false ∧ o.Fits

instance Path.decidableEnabled (s : Path) : (i : Clock) → Decidable (s.Enabled i)
  | ⟨none, _⟩ => .isTrue (by simp [Path.Enabled])
  | ⟨some o, _⟩ => decidable_of_iff (s.ops.oBusy = false ∧ o.Fits) (by simp [Path.Enabled])

def path : System Path Clock where
  init := Path.Init
  allowed := Path.Enabled
  next := Path.next

section
variable {b₀ b₁ b₂ b₃ : BitVec 8}

theorem extract_zero : (b₀ ++ b₁ ++ b₂ ++ b₃ : BitVec 32).extractLsb' 24 8 = b₀ := by
  ext k hk
  simp only [BitVec.getElem_extractLsb', BitVec.getLsbD_append]
  interval_cases k <;> simp

theorem extract_one : (b₀ ++ b₁ ++ b₂ ++ b₃ : BitVec 32).extractLsb' 16 8 = b₁ := by
  ext k hk
  simp only [BitVec.getElem_extractLsb', BitVec.getLsbD_append]
  interval_cases k <;> simp

theorem extract_two : (b₀ ++ b₁ ++ b₂ ++ b₃ : BitVec 32).extractLsb' 8 8 = b₂ := by
  ext k hk
  simp only [BitVec.getElem_extractLsb', BitVec.getLsbD_append]
  interval_cases k <;> simp

theorem extract_three : (b₀ ++ b₁ ++ b₂ ++ b₃ : BitVec 32).extractLsb' 0 8 = b₃ := by
  ext k hk
  simp only [BitVec.getElem_extractLsb', BitVec.getLsbD_append]
  interval_cases k <;> simp

theorem extract_high : ((b₀ ++ b₁ ++ b₂ ++ b₃ : BitVec 32).extractLsb' 16 16).setWidth 32 =
    (b₀ ++ b₁).setWidth 32 := by
  apply BitVec.eq_of_getLsbD_eq
  intro k hk
  simp only [BitVec.getLsbD_setWidth, BitVec.getLsbD_extractLsb', BitVec.getLsbD_append]
  interval_cases k <;> simp

theorem extract_low : ((b₀ ++ b₁ ++ b₂ ++ b₃ : BitVec 32).extractLsb' 0 16).setWidth 32 =
    (b₂ ++ b₃).setWidth 32 := by
  apply BitVec.eq_of_getLsbD_eq
  intro k hk
  simp only [BitVec.getLsbD_setWidth, BitVec.getLsbD_extractLsb', BitVec.getLsbD_append]
  interval_cases k <;> simp

/-- A halfword that is on the bus twice. -/
theorem extract_twice {d : BitVec 32} {n : Nat} (hn : n = 0 ∨ n = 8 ∨ n = 16 ∨ n = 24) :
    (d.extractLsb' 0 16 ++ d.extractLsb' 0 16 : BitVec 32).extractLsb' n 8 =
      d.extractLsb' (n % 16) 8 := by
  ext k hk
  simp only [BitVec.getElem_extractLsb', BitVec.getLsbD_append, BitVec.getLsbD_extractLsb']
  rcases hn with rfl | rfl | rfl | rfl <;> interval_cases k <;> simp

end

variable {m : Bytes} {mem : BitVec 12 → BitVec 32} {o : Op} {w : BitVec 12} {s : Path} {i : Clock}

theorem toNat_append (w : BitVec 12) (k : BitVec 2) : (w ++ k).toNat = 4 * w.toNat + k.toNat := by
  rw [BitVec.toNat_append, ← Nat.shiftLeft_add_eq_or_of_lt k.isLt, Nat.shiftLeft_eq]
  omega

theorem append_inj {v w : BitVec 12} {j k : BitVec 2} : v ++ j = w ++ k ↔ v = w ∧ j = k := by
  constructor
  · intro h
    have hj := j.isLt
    have hk := k.isLt
    have hn := congrArg BitVec.toNat h
    rw [toNat_append, toNat_append] at hn
    exact ⟨BitVec.eq_of_toNat_eq (by omega), BitVec.eq_of_toNat_eq (by omega)⟩
  · rintro ⟨rfl, rfl⟩
    rfl

theorem append_succ {k : BitVec 2} (hk : k ≠ 3) : w ++ k + 1 = w ++ (k + 1) := by
  apply BitVec.eq_of_toNat_eq
  have hlt : k.toNat < 3 := by
    have := k.isLt
    have : k.toNat ≠ 3 := fun h => hk (BitVec.eq_of_toNat_eq h)
    omega
  have hw := w.isLt
  rw [BitVec.toNat_add, toNat_append, toNat_append, BitVec.toNat_add]
  simp only [BitVec.reduceToNat]
  omega

theorem append_two : w ++ (0 : BitVec 2) + 2 = w ++ (2 : BitVec 2) := by
  rw [show (2 : BitVec 14) = 1 + 1 from rfl, ← add_assoc, append_succ (by decide),
    append_succ (by decide)]
  rfl

theorem append_three : w ++ (0 : BitVec 2) + 3 = w ++ (3 : BitVec 2) := by
  rw [show (3 : BitVec 14) = 2 + 1 from rfl, ← add_assoc, append_two, append_succ (by decide)]
  rfl

/-- The word at a word's address, byte by byte. -/
theorem load_word : load m (w ++ (0 : BitVec 2)) .word =
    m (w ++ (0 : BitVec 2)) ++ m (w ++ (1 : BitVec 2)) ++ m (w ++ (2 : BitVec 2)) ++
      m (w ++ (3 : BitVec 2)) := by
  rw [load, append_two, append_three, append_succ (by decide)]
  rfl

theorem Op.offset_eq : o.offset = o.wordAt ++ o.place := by
  apply BitVec.eq_of_toNat_eq
  rw [Op.offset, Op.wordAt, Op.place, toNat_append, BitVec.toNat_setWidth,
    BitVec.extractLsb'_toNat, BitVec.extractLsb'_toNat, Nat.shiftRight_eq_div_pow]
  simp only [Nat.shiftRight_zero]
  omega

/-- Natural alignment. -/
theorem Op.Fits.place (h : o.Fits) :
    (o.size = .word → o.place = 0) ∧ (o.size = .half → o.place = 0 ∨ o.place = 2) := by
  obtain ⟨-, -, ha⟩ := h
  have hp : o.place.toNat = o.addr.toNat % 4 := by
    rw [Op.place, BitVec.extractLsb'_toNat, Nat.shiftRight_zero]
  constructor
  · intro hs
    rw [hs] at ha
    simp only [Size.bytes] at ha
    exact BitVec.eq_of_toNat_eq (by rw [hp, ha]; rfl)
  · intro hs
    rw [hs] at ha
    simp only [Size.bytes] at ha
    have h2 : o.place.toNat = 0 ∨ o.place.toNat = 2 := by omega
    exact h2.imp (fun h => BitVec.eq_of_toNat_eq h) (fun h => BitVec.eq_of_toNat_eq h)

/-- What the unit takes from the word that the memory answers is what a load returns. -/
theorem readData_word (h : Agrees mem m) (ho : o.Fits) :
    MemOps.readData o.rOp (mem o.wordAt) = load m o.offset o.size := by
  obtain ⟨hword, hhalf⟩ := ho.place
  rw [h, load_word, Op.offset_eq]
  have hcode : MemOps.size o.code = match o.size with
      | .word => 1
      | .half => 2
      | .byte => 3 := by
    unfold Op.code MemOps.size
    cases o.size <;> cases o.store <;> rfl
  rw [Op.rOp, hcode]
  cases hs : o.size with
  | word =>
    rw [hword hs, load_word]
    rfl
  | half =>
    obtain hp | hp := hhalf hs
    · rw [hp, load, append_succ (by decide), ← extract_high]
      rfl
    · rw [hp, load, append_succ (by decide), ← extract_low]
      rfl
  | byte =>
    have hplace : o.place = 0 ∨ o.place = 1 ∨ o.place = 2 ∨ o.place = 3 := by
      have : ∀ k : BitVec 2, k = 0 ∨ k = 1 ∨ k = 2 ∨ k = 3 := by decide
      exact this o.place
    rcases hplace with hp | hp | hp | hp
    · rw [hp]
      exact congrArg (BitVec.setWidth 32) extract_zero
    · rw [hp]
      exact congrArg (BitVec.setWidth 32) extract_one
    · rw [hp]
      exact congrArg (BitVec.setWidth 32) extract_two
    · rw [hp]
      exact congrArg (BitVec.setWidth 32) extract_three

theorem place_cases (k : BitVec 2) : k = 0 ∨ k = 1 ∨ k = 2 ∨ k = 3 := by
  revert k
  decide

/-- The lanes that the unit's selects let through are the bytes that a store changes. -/
theorem agrees_store (h : Agrees mem m) (ho : o.Fits) :
    Agrees (Function.update mem o.wordAt (lanes (MemOps.writeSel o.code o.addr)
      (MemOps.writeData o.code o.data) (mem o.wordAt))) (store m o.offset o.data o.size) := by
  obtain ⟨hword, hhalf⟩ := ho.place
  have hbit : o.addr.getLsbD 1 = o.place.getLsbD 1 := by
    simp [Op.place]
  have hplace : o.addr.extractLsb' 0 2 = o.place := rfl
  have hcode : MemOps.size o.code = match o.size with
      | .word => 1
      | .half => 2
      | .byte => 3 := by
    unfold Op.code MemOps.size
    cases o.size <;> cases o.store <;> rfl
  intro w
  have hmem := h w
  rw [load_word] at hmem ⊢
  rw [Op.offset_eq, MemOps.writeSel, MemOps.writeData, hcode, hbit, hplace]
  by_cases hw : w = o.wordAt
  · rw [← hw, Function.update_self, hmem]
    cases hs : o.size with
    | word =>
      rw [hword hs, store, append_two, append_three, append_succ (by decide)]
      simp [append_inj, lanes]
    | half =>
      obtain hp | hp := hhalf hs
      · rw [hp, store, append_succ (by decide)]
        simp [append_inj, lanes, extract_two, extract_three, extract_twice]
      · rw [hp, store, append_succ (by decide)]
        simp [append_inj, lanes, extract_zero, extract_one, extract_twice]
    | byte =>
      rcases place_cases o.place with hp | hp | hp | hp
      · rw [hp, store]
        simp [append_inj, lanes, extract_zero, extract_one, extract_two, extract_three]
      · rw [hp, store]
        simp [append_inj, lanes, extract_zero, extract_one, extract_two, extract_three]
      · rw [hp, store]
        simp [append_inj, lanes, extract_zero, extract_one, extract_two, extract_three]
      · rw [hp, store]
        simp [append_inj, lanes, extract_zero, extract_one, extract_two, extract_three]
  · rw [Function.update_of_ne hw, hmem]
    cases hs : o.size with
    | word =>
      rw [hword hs, store, append_two, append_three, append_succ (by decide)]
      simp [append_inj, hw]
    | half =>
      obtain hp | hp := hhalf hs
      · rw [hp, store, append_succ (by decide)]
        simp [append_inj, hw]
      · rw [hp, store, append_succ (by decide)]
        simp [append_inj, hw]
    | byte =>
      rw [store]
      simp [append_inj, hw]

/-- No other byte changes. -/
theorem store_other {a b : BitVec 14} {d : BitVec 32} {z : Size}
    (h : ∀ k < z.bytes, b ≠ a + BitVec.ofNat 14 k) : store m a d z b = m b := by
  have h0 : b ≠ a := by
    have := h 0 (by cases z <;> decide)
    simpa using this
  cases z with
  | word =>
    have h1 : b ≠ a + 1 := h 1 (by decide)
    have h2 : b ≠ a + 2 := h 2 (by decide)
    have h3 : b ≠ a + 3 := h 3 (by decide)
    rw [store, Function.update_of_ne h3, Function.update_of_ne h2, Function.update_of_ne h1,
      Function.update_of_ne h0]
  | half =>
    have h1 : b ≠ a + 1 := h 1 (by decide)
    rw [store, Function.update_of_ne h1, Function.update_of_ne h0]
  | byte => rw [store, Function.update_of_ne h0]

/-- The operation that the unit's registers ask for. -/
structure Path.Asks (s : Path) (o : Op) : Prop where
  we : s.ops.oWbWe = o.store
  addr : s.ops.oWbAddr.setWidth 12 = o.wordAt
  data : s.ops.oWbData = MemOps.writeData o.code o.data
  sel : s.ops.oWbSel = MemOps.writeSel o.code o.addr
  rOp : s.ops.rOp = o.rOp
  reg : s.ops.oWreg = o.reg

/-- The memory lags by the operation asked for, and the answer to a load taken is there. -/
structure Path.Ok (s : Path) : Prop where
  lock : s.ops.lockGbl = false
  told : s.ops.oValid = true → s.due = some (s.ops.oWreg, s.ops.oResult)
  idle : s.ops.rWbCycGbl = false → s.ops.oWbStbGbl = false ∧ Agrees s.ram.mem s.bytes
  asked : s.ops.oWbStbGbl = true → s.ops.rWbCycGbl = true ∧ s.ram.oWbAck = false ∧
    ∃ o m, o.Fits ∧ s.Asks o ∧ Agrees s.ram.mem m ∧
      (o.store = true → s.bytes = store m o.offset o.data o.size) ∧
      (o.store = false → s.bytes = m ∧ s.due = some (o.reg, load m o.offset o.size))
  taken : s.ops.rWbCycGbl = true → s.ops.oWbStbGbl = false → s.ram.oWbAck = true ∧
    Agrees s.ram.mem s.bytes ∧ (s.ops.oWbWe = false →
      s.due = some (s.ops.oWreg, MemOps.readData s.ops.rOp s.ram.oWbData))

theorem Path.Ok.init (h : s.Init) : s.Ok := by
  refine ⟨h.lock, fun hv => ?_, fun _ => ⟨h.stb, h.bytes⟩, fun hs => ?_, fun hc => ?_⟩
  · simp [h.valid] at hv
  · simp [h.stb] at hs
  · simp [h.cyc] at hc

theorem extract_wordAt : (o.addr.extractLsb' 2 23).setWidth 12 = o.wordAt := by
  apply BitVec.eq_of_getLsbD_eq
  intro k hk
  simp only [Op.wordAt, BitVec.getLsbD_setWidth, BitVec.getLsbD_extractLsb', hk]
  simp
  omega

theorem Op.code_store : o.code[0] = o.store := by
  unfold Op.code
  cases o.size <;> cases o.store <;> rfl

/-- An operation is issued. -/
theorem Path.Ok.issue (h : s.Ok) (hi : i.op = some o) (hb : s.ops.oBusy = false)
    (ho : o.Fits) : (s.next i).Ok := by
  obtain ⟨hstb, hmem⟩ := h.idle hb
  have hcyc : s.ops.rWbCycGbl = false := hb
  have hram : (s.next i).ram.mem = s.ram.mem := by
    simp [Path.next, step, Path.ramInput, hstb]
  have hack : (s.next i).ram.oWbAck = false := by
    simp [Path.next, step, Path.ramInput, hstb]
  have hbusy : (s.next i).ops.rWbCycGbl = true := by
    simp [Path.next, MemOps.step, Path.opsInput, hi, hcyc]
  refine ⟨?_, fun hv => ?_, fun hc => ?_, fun _ => ⟨hbusy, hack, o, s.bytes, ho, ?_, ?_, ?_, ?_⟩,
    fun _ hs => ?_⟩
  · simp [Path.next, MemOps.step, Path.opsInput]
  · simp [Path.next, MemOps.step, MemOps.State.oWbCycGbl, hcyc, h.lock] at hv
  · simp [hbusy] at hc
  · refine ⟨?_, ?_, ?_, ?_, ?_, ?_⟩
    · simp [Path.next, MemOps.step, Path.opsInput, hi, Op.code_store]
    · simp only [Path.next, MemOps.step, Path.opsInput, hi, Option.isSome_some, if_true,
        Option.map_some, Option.getD_some, extract_wordAt]
    · simp [Path.next, MemOps.step, Path.opsInput, hi]
    · simp [Path.next, MemOps.step, Path.opsInput, hi]
    · simp [Path.next, MemOps.step, Path.opsInput, hi, Op.rOp, Op.place]
    · simp [Path.next, MemOps.step, Path.opsInput, hi]
  · rw [hram]
    exact hmem
  · intro hst
    simp [Path.next, hi, hst]
  · intro hst
    simp [Path.next, hi, hst]
  · simp [Path.next, MemOps.step, Path.opsInput, hi, MemOps.State.oWbCycGbl, hcyc, h.lock] at hs

/-- A clock in which nothing is issued. -/
theorem Path.Ok.wait (h : s.Ok) (hi : i.op = none) : (s.next i).Ok := by
  have hlock : (s.next i).ops.lockGbl = false := by
    simp [Path.next, MemOps.step, Path.opsInput]
  have hregs : (s.next i).ops.oWbWe = s.ops.oWbWe ∧ (s.next i).ops.oWbAddr = s.ops.oWbAddr ∧
      (s.next i).ops.oWbData = s.ops.oWbData ∧ (s.next i).ops.oWbSel = s.ops.oWbSel ∧
      (s.next i).ops.rOp = s.ops.rOp ∧ (s.next i).ops.oWreg = s.ops.oWreg := by
    simp [Path.next, MemOps.step, Path.opsInput, hi]
  have hghost : (s.next i).bytes = s.bytes ∧ (s.next i).due = s.due := by
    simp [Path.next, hi]
  obtain ⟨hwe, haddr, hdata, hsel, hrop, hreg⟩ := hregs
  obtain ⟨hbytes, hdue⟩ := hghost
  cases hs : s.ops.oWbStbGbl with
  | true =>
    obtain ⟨hcyc, hack, o, m, ho, hasks, hmem, hst, hld⟩ := h.asked hs
    have hbusy : (s.next i).ops.rWbCycGbl = true := by
      simp [Path.next, MemOps.step, Path.opsInput, hcyc, hack]
    have hvalid : (s.next i).ops.oValid = false := by
      simp [Path.next, MemOps.step, Path.opsInput, hack]
    have hstb : (s.next i).ops.oWbStbGbl = i.held := by
      simp [Path.next, MemOps.step, Path.opsInput, MemOps.State.oWbCycGbl, hcyc, hs]
    refine ⟨hlock, fun hv => ?_, fun hc => ?_, fun hh => ?_, fun _ hh => ?_⟩
    · simp [hvalid] at hv
    · simp [hbusy] at hc
    · -- the bus is someone else's
      have hheld : i.held = true := hstb ▸ hh
      have hram : (s.next i).ram.mem = s.ram.mem := by
        simp [Path.next, step, Path.ramInput, hheld]
      refine ⟨hbusy, by simp [Path.next, step, Path.ramInput, hheld], o, m, ho, ?_, ?_, ?_, ?_⟩
      · exact ⟨hwe.trans hasks.we, by rw [haddr, hasks.addr], hdata.trans hasks.data,
          hsel.trans hasks.sel, hrop.trans hasks.rOp, hreg.trans hasks.reg⟩
      · rwa [hram]
      · rwa [hbytes]
      · rwa [hbytes, hdue]
    · have hheld : i.held = false := hstb ▸ hh
      refine ⟨by simp [Path.next, step, Path.ramInput, hs, hheld], ?_, fun hw => ?_⟩
      · rw [hbytes]
        cases hstore : o.store with
        | true =>
          rw [hst hstore]
          have hram : (s.next i).ram.mem = Function.update s.ram.mem o.wordAt
              (lanes (MemOps.writeSel o.code o.addr) (MemOps.writeData o.code o.data)
                (s.ram.mem o.wordAt)) := by
            simp [Path.next, step, Path.ramInput, hs, hheld, hasks.we, hstore, hasks.addr,
              hasks.data, hasks.sel]
          rw [hram]
          exact agrees_store hmem ho
        | false =>
          have hram : (s.next i).ram.mem = s.ram.mem := by
            simp [Path.next, step, Path.ramInput, hasks.we, hstore]
          rw [hram, (hld hstore).1]
          exact hmem
      · have hstore : o.store = false := by rw [← hasks.we, ← hwe, hw]
        have hword : (s.next i).ram.oWbData = s.ram.mem o.wordAt := by
          simp [Path.next, step, Path.ramInput, hasks.addr]
        rw [hdue, (hld hstore).2, hreg, hasks.reg, hrop, hasks.rOp, hword, readData_word hmem ho]
  | false =>
    have hram : (s.next i).ram.mem = s.ram.mem := by
      simp [Path.next, step, Path.ramInput, hs]
    have hstb : (s.next i).ops.oWbStbGbl = false := by
      simp [Path.next, MemOps.step, Path.opsInput, hi, hs]
    have hidle : (s.next i).ops.rWbCycGbl = false := by
      cases hc : s.ops.rWbCycGbl with
      | true =>
        have hack := (h.taken hc hs).1
        simp [Path.next, MemOps.step, Path.opsInput, hc, hack]
      | false => simp [Path.next, MemOps.step, Path.opsInput, hc, hi]
    have hagrees : Agrees s.ram.mem s.bytes := by
      cases hc : s.ops.rWbCycGbl with
      | true => exact (h.taken hc hs).2.1
      | false => exact (h.idle hc).2
    refine ⟨hlock, fun hv => ?_, fun _ => ⟨hstb, by rwa [hram, hbytes]⟩, fun hh => ?_, fun hc => ?_⟩
    · cases hc : s.ops.rWbCycGbl with
      | true =>
        have hw : s.ops.oWbWe = false := by
          simp only [Path.next, MemOps.step, Bool.and_eq_true, Bool.not_eq_true'] at hv
          exact hv.2
        rw [hdue, (h.taken hc hs).2.2 hw, hreg]
        rfl
      | false =>
        simp [Path.next, MemOps.step, MemOps.State.oWbCycGbl, hc, h.lock] at hv
    · simp [hstb] at hh
    · simp [hidle] at hc

theorem Path.Ok.next (h : s.Ok) (hi : s.Enabled i) : (s.next i).Ok := by
  cases ho : i.op with
  | none => exact h.wait ho
  | some o =>
    obtain ⟨hb, hf⟩ := hi o ho
    exact h.issue ho hb hf

/-- Once the bus is granted, an operation is over two clocks later. -/
theorem Path.Ok.ends (h : s.Ok) (hs : s.ops.oWbStbGbl = true) {j : Clock} (hi : i.op = none)
    (hh : i.held = false) (hj : j.op = none) : ((s.next i).next j).ops.oBusy = false ∧
      ((s.next i).next j).ops.oValid = !s.ops.oWbWe := by
  obtain ⟨hcyc, hack, -⟩ := h.asked hs
  simp [Path.next, MemOps.step, Path.opsInput, Path.ramInput, step, MemOps.State.oBusy,
    MemOps.State.oWbCycGbl, hs, hi, hh, hj, hcyc, hack, h.lock]

instance (s : Path) (i : Clock) : Decidable (path.allowed s i) :=
  inferInstanceAs (Decidable (s.Enabled i))

def newPath : Path where
  ops := ⟨false, false, false, false, 0, 0, 0, 0, false, false, 0, 0⟩
  ram := ⟨fun _ => 0, false, 0⟩
  bytes := fun _ => 0
  due := none

theorem init_newPath : path.init newPath :=
  ⟨rfl, rfl, rfl, rfl, fun _ => by simp only [newPath, load]; rfl⟩

/-- A word is stored and its third byte loaded. -/
def storedLoaded : List Clock :=
  [⟨some ⟨true, .word, 0x4000, 0x12345678, 0⟩, false⟩, ⟨none, true⟩, ⟨none, false⟩, ⟨none, false⟩,
    ⟨some ⟨false, .byte, 0x4002, 0, 1⟩, false⟩, ⟨none, false⟩, ⟨none, false⟩]

example : (storedLoaded.foldl Path.next newPath).ops.oValid = true ∧
    (storedLoaded.foldl Path.next newPath).ops.oResult = 0x56 := by decide +kernel

end S6Soc.MemDev
