import S6Soc.FlashSound
import S6Soc.LoaderSections

/-! What is in the flash when `zipload` has reported success. -/
namespace S6Soc.Zipload
open FlashDrvr NorFlash

/-- The bit file without its header. -/
def Files.bit (i : Files) : Option (List Byte) :=
  i.bitfile.bind fun file => file.contents file.name FLASHLEN

def Files.alt (i : Files) : Option (List Byte) :=
  i.altbitfile.bind fun file =>
    file.contents file.name (FLASHLEN - (ALTCONFIG_ADDRESS - SPIFLASH))

def Files.phdrs (i : Files) : List Phdr := (i.execfile.map Elf.phdrs).getD []

def bitPiece (c : List Byte) : Piece := ⟨CONFIG_ADDRESS, c.length, fun k => c.getD k 0⟩

def altPiece (c : List Byte) : Piece := ⟨ALTCONFIG_ADDRESS, c.length, fun k => c.getD k 0⟩

/-- The flash holds both bit files and, of every program header, the bytes that are to be
in flash. -/
structure Loaded (i : Files) (f : Flash) : Prop where
  bit : ∀ c, i.bit = some c → ∀ x, (bitPiece c).Covers x → f x = (bitPiece c).byte x
  alt : ∀ c, i.alt = some c → ∀ x, (altPiece c).Covers x → f x = (altPiece c).byte x
  phdrs : ∀ h ∈ i.phdrs, ∀ x, h.piece.Covers x → SPIFLASH ≤ x → x < SPIFLASH + FLASHLEN →
    f x = h.piece.byte x

/-- All that is to be in the flash. -/
def Files.wanted (i : Files) : List Piece :=
  (i.bit.map bitPiece).toList ++ (i.alt.map altPiece).toList ++ i.phdrs.map Phdr.piece

/-- The alternate bit file as it is read, under the name of the last argument. -/
def Files.altRead (i : Files) : Option (List Byte) :=
  i.altbitfile.bind fun file =>
    file.contents i.lastArg (FLASHLEN - (ALTCONFIG_ADDRESS - SPIFLASH))

/-- The buffer when the bit file has been read. -/
def Files.bits (i : Files) (k : ℕ) : Byte := (i.bit.getD []).getD k (BitVec.allOnes 8)

def Files.bitsz (i : Files) : ℕ := (i.bit.getD []).length

def Files.altsz (i : Files) : ℕ := (i.altRead.getD []).length

/-- The buffer when the alternate bit file has been read too. -/
def Files.buffer (i : Files) : Buffer :=
  memcpy i.bits (ALTCONFIG_ADDRESS - SPIFLASH) i.altsz fun k => (i.altRead.getD []).getD k 0

def Files.headers (i : Files) : List Piece := (taken i.phdrs).map Phdr.piece

/-- Where the program begins in the flash, and where it ends. -/
def Files.first (i : Files) : ℕ := lowest RESET_ADDRESS i.headers

def Files.last (i : Files) : ℕ := highest RESET_ADDRESS i.headers

def Files.InProgram (i : Files) (x : ℕ) : Prop := i.first ≤ x ∧ x < i.last

/-- The sections that are put into the buffer. -/
def Files.sections (u : Unset) (i : Files) : List Section :=
  ((i.execfile.bind fun e => elfread u.heap e).map loaded).getD []

/-- What the buffer holds for `x` when the program is written. -/
def Files.put (u : Unset) (i : Files) (x : ℕ) : Byte :=
  overlay (i.sections u) (i.buffer (x - SPIFLASH)) x

/-- What the program is written from, by the byte from where it begins. -/
def Files.code (u : Unset) (i : Files) (k : ℕ) : Byte := i.put u (i.first + k)

/-- The flash when the bit file has been written, if the driver does what is meant. -/
def Files.bitWritten (f : Flash) (i : Files) : Flash := after f CONFIG_ADDRESS i.bitsz i.bits

/-- The flash when both bit files have been written. -/
def Files.configured (f : Flash) (i : Files) : Flash :=
  after (i.bitWritten f) ALTCONFIG_ADDRESS i.altsz i.buffer

/-- The program's write erases the sector. -/
def Files.Erased (u : Unset) (f : Flash) (i : Files) (x : ℕ) : Prop :=
  Visited i.first (i.last - i.first) (SECTOROF x) ∧
    NeedsErase (i.configured f) i.first (i.last - i.first) (i.code u) (SECTOROF x)

/-- Something is written to `x`, or something is to be there. -/
def Files.Used (i : Files) (x : ℕ) : Prop :=
  CONFIG_ADDRESS ≤ x ∧ x < CONFIG_ADDRESS + i.bitsz ∨
    ALTCONFIG_ADDRESS ≤ x ∧ x < ALTCONFIG_ADDRESS + i.altsz ∨ i.InProgram x ∨
      ∃ p ∈ i.wanted, InFlash x ∧ p.Covers x

/-- Each of the three writes comes out right with what the driver finds in its memory. -/
structure Driven (u : Unset) (f : Flash) (i : Files) : Prop where
  bit : SoundFor i.Used u.bit f CONFIG_ADDRESS i.bitsz i.bits
  alt : SoundFor i.Used u.alt (i.bitWritten f) ALTCONFIG_ADDRESS i.altsz i.buffer
  exec : SoundFor i.Used u.exec (i.configured f) i.first (i.last - i.first) (i.code u)

/-- The files do not get into each other's way, nor into the loader's. -/
structure Consistent (u : Unset) (f : Flash) (i : Files) : Prop where
  /-- Where the program goes, the buffer holds what each file has there. -/
  program : ∀ p ∈ i.wanted, ∀ x, InFlash x → p.Covers x → i.InProgram x → p.byte x = i.put u x
  /-- Beside the program, in a sector that is erased for it, only ones are wanted. -/
  erased : ∀ p ∈ i.wanted, ∀ x, InFlash x → p.Covers x → ¬ i.InProgram x → i.Erased u f x →
    p.byte x = BitVec.allOnes 8
  /-- The alternate bit file is what the bit file begins with, as far as it is read; the rest
  of it is there. -/
  alt : ∀ c, i.alt = some c → ∀ x, (altPiece c).Covers x → ¬ i.InProgram x → ¬ i.Erased u f x →
    (altPiece c).byte x = if x < ALTCONFIG_ADDRESS + i.altsz then i.bits (x - ALTCONFIG_ADDRESS)
      else i.configured f x
  /-- A header that is left out is there. -/
  left : ∀ h ∈ i.phdrs, ∀ x, InFlash x → h.piece.Covers x → ¬ i.InProgram x →
    ¬ i.Erased u f x → h.piece.byte x = i.configured f x

theorem config_address_eq : CONFIG_ADDRESS = 0x1000000 := by rw [CONFIG_ADDRESS, spiflash_eq]

theorem altconfig_address_eq : ALTCONFIG_ADDRESS = 0x1100000 := by rw [ALTCONFIG_ADDRESS]

theorem reset_address_eq : RESET_ADDRESS = 0x1200000 := by rw [RESET_ADDRESS]

theorem config_whole : CONFIG_ADDRESS % SECTORSZB = 0 := by
  simp [config_address_eq, SECTORSZB, NPAGES]

theorem altconfig_whole : ALTCONFIG_ADDRESS % SECTORSZB = 0 := by
  simp [altconfig_address_eq, SECTORSZB, NPAGES]

theorem reset_whole : RESET_ADDRESS % SECTORSZB = 0 := by
  simp [reset_address_eq, SECTORSZB, NPAGES]

variable {u : Unset} {f f' f₁ f₂ : Flash} {i : Files} {h : Phdr} {x b : ℕ} {p : Placing}
  {s : Section}

theorem mem_wanted {q : Piece} : q ∈ i.wanted ↔ (∃ c, i.bit = some c ∧ bitPiece c = q) ∨
    (∃ c, i.alt = some c ∧ altPiece c = q) ∨ ∃ h ∈ i.phdrs, h.piece = q := by
  simp [Files.wanted]

theorem map_ok {ε α β : Type} {m : Except ε α} {k : α → β} {r : β} (h : m.map k = .ok r) :
    ∃ v, m = .ok v ∧ k v = r := by
  cases m with
  | error e => cases h
  | ok v => exact ⟨v, rfl, Except.ok.inj h⟩

theorem write_of_flashWrite {g : Garbage} {addr len : ℕ} {data : ℕ → Byte} {r : Bool × Flash}
    (h : flashWrite g f addr len data = .ok r) : write g f addr len data true = .ok r := by
  unfold flashWrite at h
  cases hw : write g f addr len data true with
  | error e => rw [hw] at h; cases h
  | ok v =>
    rw [hw] at h
    simpa [Except.mapError] using h

theorem bits_of_lt {c : List Byte} {k : ℕ} (h : i.bit = some c) (hk : k < c.length) :
    i.bits k = c.getD k 0 := by
  simp [Files.bits, h, List.getD_eq_getElem?_getD, List.getElem?_eq_getElem hk]

theorem bits_of_le {k : ℕ} (hk : i.bitsz ≤ k) : i.bits k = BitVec.allOnes 8 := by
  rw [Files.bits, List.getD_eq_getElem?_getD, List.getElem?_eq_none hk, Option.getD_none]

/-- A run that reports success: three writes, and where they go. -/
structure Writes (u : Unset) (f : Flash) (i : Files) (f₁ f₂ f' : Flash) : Prop where
  bitsz : CONFIG_ADDRESS + i.bitsz ≤ RESET_ADDRESS
  altsz : ALTCONFIG_ADDRESS + i.altsz ≤ RESET_ADDRESS
  apart : 0 < i.altsz → CONFIG_ADDRESS + i.bitsz ≤ ALTCONFIG_ADDRESS
  first : SPIFLASH ≤ i.first
  reads : List.Forall₂ Reads (taken i.phdrs) (i.sections u)
  bit : ∃ b, write u.bit f CONFIG_ADDRESS i.bitsz i.bits true = .ok (b, f₁)
  alt : ∃ b, write u.alt f₁ ALTCONFIG_ADDRESS i.altsz i.buffer true = .ok (b, f₂)
  exec : write u.exec f₂ i.first (i.last - i.first) (i.code u) true = .ok (true, f')

theorem loadBit_write {bitsz : ℕ} {fbuf : Buffer}
    (h : loadBit u f i.bitfile = .ok (fbuf, bitsz, f')) :
    fbuf = i.bits ∧ i.bitsz ≤ bitsz ∧
      ∃ b, write u.bit f CONFIG_ADDRESS i.bitsz i.bits true = .ok (b, f') := by
  have hconf := config_address_eq
  cases hb : i.bitfile with
  | none =>
    rw [hb] at h
    cases h
    have hbit : i.bit = none := by rw [Files.bit, hb]; rfl
    have hsz : i.bitsz = 0 := by rw [Files.bitsz, hbit]; rfl
    refine ⟨?_, by omega, true, ?_⟩
    · funext k
      exact (bits_of_le (by omega)).symm
    · rw [hsz]
      exact write_empty _ _ _ _ (by omega) config_whole
  | some file =>
    rw [hb, loadBit] at h
    cases hc : file.contents file.name FLASHLEN with
    | none => rw [hc] at h; cases h
    | some c =>
      have hbit : i.bit = some c := by rw [Files.bit, hb]; exact hc
      have hsz : i.bitsz = c.length := by rw [Files.bitsz, hbit]; rfl
      simp only [hc] at h
      obtain ⟨r, hw, hr⟩ := map_ok h
      simp only [Prod.mk.injEq] at hr
      obtain ⟨rfl, rfl, rfl⟩ := hr
      have hbuf : memcpy ones 0 c.length (fun k => c.getD k 0) = i.bits := by
        funext k
        rw [memcpy]
        split_ifs with hk
        · rw [bits_of_lt hbit (by omega)]
          rfl
        · exact (bits_of_le (by omega)).symm
      rw [hbuf, ← hsz] at hw
      exact ⟨hbuf, hsz.le, r.1, write_of_flashWrite hw⟩

theorem loadAlt_write {bitsz : ℕ} {fbuf : Buffer} (hsz : i.bitsz ≤ bitsz)
    (h : loadAlt u i.lastArg i.bits bitsz f₁ i.altbitfile = .ok (fbuf, f₂)) :
    fbuf = i.buffer ∧ CONFIG_ADDRESS + i.bitsz ≤ RESET_ADDRESS ∧
      ALTCONFIG_ADDRESS + i.altsz ≤ RESET_ADDRESS ∧
      (0 < i.altsz → CONFIG_ADDRESS + i.bitsz ≤ ALTCONFIG_ADDRESS) ∧
      ∃ b, write u.alt f₁ ALTCONFIG_ADDRESS i.altsz i.buffer true = .ok (b, f₂) := by
  have haddr := altconfig_address_eq
  have hreset := reset_address_eq
  cases ha : i.altbitfile with
  | none =>
    rw [ha, loadAlt] at h
    have halt : i.altRead = none := by rw [Files.altRead, ha]; rfl
    have hasz : i.altsz = 0 := by rw [Files.altsz, halt]; rfl
    split_ifs at h with hr
    cases h
    refine ⟨?_, by omega, by omega, by omega, true, ?_⟩
    · funext k
      rw [Files.buffer, memcpy, if_neg (by omega)]
    · rw [hasz]
      exact write_empty _ _ _ _ (by omega) altconfig_whole
  | some file =>
    rw [ha, loadAlt] at h
    split_ifs at h with hr
    cases hc : file.contents i.lastArg (FLASHLEN - (ALTCONFIG_ADDRESS - SPIFLASH)) with
    | none => rw [hc] at h; cases h
    | some c =>
      have halt : i.altRead = some c := by rw [Files.altRead, ha]; exact hc
      have hasz : i.altsz = c.length := by rw [Files.altsz, halt]; rfl
      simp only [hc] at h
      split_ifs at h with hr'
      obtain ⟨r, hw, hres⟩ := map_ok h
      simp only [Prod.mk.injEq] at hres
      obtain ⟨rfl, rfl⟩ := hres
      have hbuf : memcpy i.bits (ALTCONFIG_ADDRESS - SPIFLASH) c.length (fun k => c.getD k 0) =
          i.buffer := by
        rw [Files.buffer, hasz, halt]
        rfl
      rw [hbuf, ← hasz] at hw
      exact ⟨hbuf, by omega, by omega, by omega, r.1, write_of_flashWrite hw⟩

theorem loadExec_write (h : loadExec u i.buffer f₂ i.execfile = .ok f') : SPIFLASH ≤ i.first ∧
    List.Forall₂ Reads (taken i.phdrs) (i.sections u) ∧
    write u.exec f₂ i.first (i.last - i.first) (i.code u) true = .ok (true, f') := by
  have hspi := spiflash_eq
  have hreset := reset_address_eq
  cases he : i.execfile with
  | none =>
    rw [he] at h
    cases h
    have hphdrs : taken i.phdrs = [] := by rw [Files.phdrs, he]; rfl
    have hsecs : i.sections u = [] := by rw [Files.sections, he]; rfl
    have hnone : i.headers = [] := by rw [Files.headers, hphdrs, List.map_nil]
    have hfirst : i.first = RESET_ADDRESS := by rw [Files.first, hnone]; rfl
    have hlast : i.last = RESET_ADDRESS := by rw [Files.last, hnone]; rfl
    rw [hfirst, hlast, Nat.sub_self, hphdrs, hsecs]
    exact ⟨by omega, .nil, write_empty _ _ _ _ (by omega) reset_whole⟩
  | some e =>
    have hphdrs : i.phdrs = e.phdrs := by rw [Files.phdrs, he]; rfl
    rw [he, loadExec] at h
    cases hr : elfread u.heap e with
    | none => rw [hr] at h; cases h
    | some secs =>
      simp only [hr] at h
      split_ifs at h
      have hsecs : elfSections u.heap i.phdrs = some secs := by
        unfold elfread at hr
        split_ifs at hr
        rwa [hphdrs]
      have hput : i.sections u = loaded secs := by
        rw [Files.sections, he, Option.bind_some, hr]
        rfl
      have hreads := elfSections_loaded hsecs
      obtain ⟨p, hplace, h⟩ := bind_ok h
      have h₀ : (BitVec.ofNat 32 RESET_ADDRESS).toNat = RESET_ADDRESS := by simp [hreset]
      obtain ⟨-, -, hbuf, hstart, hend⟩ := placeAll_sections (by simp [hreset]) hplace
      simp only [h₀, BitVec.ofNat_eq_ofNat, BitVec.toNat_ofNat, Nat.zero_mod, Nat.add_zero,
        lowest_congr hreads] at hstart hend
      split_ifs at h with h₁ h₂
      have hfirst : p.startaddr.toNat = i.first := hstart (not_lt.mp h₁)
      have hlast : p.startaddr.toNat + p.codelen.toNat = i.last := hend (not_lt.mp h₂)
      obtain ⟨r, hw, h⟩ := bind_ok h
      have hrt : r = (true, f') := by
        split_ifs at h with hb
        exact Prod.ext hb (Except.ok.inj h)
      subst hrt
      have hcode : (fun k => p.fbuf (p.startaddr.toNat - SPIFLASH + k)) = i.code u := by
        funext k
        rw [Files.code, ← hfirst,
          show p.startaddr.toNat - SPIFLASH + k = p.startaddr.toNat + k - SPIFLASH by omega,
          hbuf _ (by omega), Files.put, hput]
      rw [hcode, show p.codelen.toNat = i.last - i.first by omega, hfirst] at hw
      rw [hput]
      exact ⟨by omega, hreads, write_of_flashWrite hw⟩

theorem writes_of_zipload (h : zipload u f i = .ok f') : ∃ f₁ f₂, Writes u f i f₁ f₂ f' := by
  unfold zipload at h
  split_ifs at h
  obtain ⟨⟨fbuf, bitsz, f₁⟩, hbit, h⟩ := bind_ok h
  obtain ⟨⟨fbuf', f₂⟩, halt, h⟩ := bind_ok h
  obtain ⟨rfl, hsz, hwbit⟩ := loadBit_write hbit
  obtain ⟨rfl, h₁, h₂, h₃, hwalt⟩ := loadAlt_write hsz halt
  obtain ⟨hfirst, hreads, hwexec⟩ := loadExec_write h
  exact ⟨f₁, f₂, h₁, h₂, h₃, hfirst, hreads, hwbit, hwalt, hwexec⟩

/-- Where it is of use, the flash is in the end what three right writes make of it. -/
theorem Writes.eq_after (hw : Writes u f i f₁ f₂ f') (hd : Driven u f i) (hx : i.Used x) :
    f' x = after (i.configured f) i.first (i.last - i.first) (i.code u) x := by
  have hspi := spiflash_eq
  have hconf := config_address_eq
  have haddr := altconfig_address_eq
  have hfirst := hw.first
  obtain ⟨b₁, hbit⟩ := hw.bit
  obtain ⟨b₂, halt⟩ := hw.alt
  have h₁ (y : ℕ) (hy : i.Used y) : f₁ y = i.bitWritten f y :=
    hd.bit.eq_after (fun _ h₁ h₂ => Or.inl ⟨h₁, h₂⟩) (fun _ _ => rfl) (by omega) hbit
      (fun _ => by omega) hy
  have h₂ (y : ℕ) (hy : i.Used y) : f₂ y = i.configured f y :=
    hd.alt.eq_after (fun _ h₁ h₂ => Or.inr (Or.inl ⟨h₁, h₂⟩)) h₁ (by omega) halt
      (fun _ => by omega) hy
  exact hd.exec.eq_after (fun y h₁ h₂ => Or.inr (Or.inr (Or.inl ⟨h₁, by omega⟩))) h₂ (by omega)
    hw.exec nofun hx

theorem after_program (h : i.InProgram x) :
    after (i.configured f) i.first (i.last - i.first) (i.code u) x = i.put u x := by
  obtain ⟨h₁, h₂⟩ := h
  rw [after, if_pos ⟨h₁, by omega⟩, Files.code, Nat.add_sub_cancel' h₁]

theorem after_beside (h : ¬ i.InProgram x) :
    (i.Erased u f x → after (i.configured f) i.first (i.last - i.first) (i.code u) x =
      BitVec.allOnes 8) ∧
    (¬ i.Erased u f x → after (i.configured f) i.first (i.last - i.first) (i.code u) x =
      i.configured f x) := by
  have hn : ¬ (i.first ≤ x ∧ x < i.first + (i.last - i.first)) := by
    intro hx
    exact h ⟨hx.1, by omega⟩
  rw [after, if_neg hn]
  exact ⟨fun he => if_pos he, fun he => if_neg he⟩

theorem Writes.configured_bit (hw : Writes u f i f₁ f₂ f') (h₁ : CONFIG_ADDRESS ≤ x)
    (h₂ : x < CONFIG_ADDRESS + i.bitsz) : i.configured f x = i.bits (x - CONFIG_ADDRESS) := by
  have haddr := altconfig_address_eq
  have hapart := hw.apart
  have hv : ¬ Visited ALTCONFIG_ADDRESS i.altsz (SECTOROF x) := by
    by_cases hz : i.altsz = 0
    · rw [hz]
      exact not_visited_empty altconfig_whole
    · intro hv
      have := hv.first
      simp only [SECTOROF, SECTORSZB, NPAGES] at *
      omega
  rw [Files.configured, after, if_neg (by omega), if_neg fun h => hv h.1, Files.bitWritten, after,
    if_pos ⟨h₁, h₂⟩]

theorem Writes.configured_alt (hw : Writes u f i f₁ f₂ f') (h₁ : ALTCONFIG_ADDRESS ≤ x)
    (h₂ : x < ALTCONFIG_ADDRESS + i.altsz) :
    i.configured f x = i.bits (x - ALTCONFIG_ADDRESS) := by
  have hspi := spiflash_eq
  have haddr := altconfig_address_eq
  have hreset := reset_address_eq
  have := hw.altsz
  rw [Files.configured, after, if_pos ⟨h₁, h₂⟩, Files.buffer, memcpy, if_neg (by omega)]

theorem contents_length_le {file : BinFile} {name : Name} {room : ℕ} {c : List Byte}
    (h : file.contents name room = some c) : c.length ≤ room := by
  obtain ⟨bytes, -, rfl⟩ := Option.map_eq_some_iff.mp h
  exact List.length_take_le _ _

theorem inFlash_of_bit {c : List Byte} (h : i.bit = some c) (hx : (bitPiece c).Covers x) :
    InFlash x := by
  have hspi := spiflash_eq
  have hconf := config_address_eq
  obtain ⟨file, -, hc⟩ := Option.bind_eq_some_iff.mp h
  have := contents_length_le hc
  obtain ⟨h₁, h₂⟩ := hx
  simp only [bitPiece] at h₁ h₂
  exact ⟨by omega, by omega⟩

theorem inFlash_of_alt {c : List Byte} (h : i.alt = some c) (hx : (altPiece c).Covers x) :
    InFlash x := by
  have hspi := spiflash_eq
  have haddr := altconfig_address_eq
  obtain ⟨file, -, hc⟩ := Option.bind_eq_some_iff.mp h
  have := contents_length_le hc
  obtain ⟨h₁, h₂⟩ := hx
  simp only [altPiece] at h₁ h₂
  exact ⟨by omega, by omega⟩

/-- All of it, piece by piece. -/
theorem loaded_iff_wanted : Loaded i f ↔
    ∀ p ∈ i.wanted, ∀ x, InFlash x → p.Covers x → f x = p.byte x := by
  constructor
  · intro hl q hq x hin hx
    rcases mem_wanted.mp hq with ⟨c, hc, rfl⟩ | ⟨c, hc, rfl⟩ | ⟨h, hm, rfl⟩
    · exact hl.bit c hc x hx
    · exact hl.alt c hc x hx
    · exact hl.phdrs h hm x hx hin.1 hin.2
  · intro hall
    refine ⟨fun c hc x hx => ?_, fun c hc x hx => ?_, fun h hm x hx hlo hhi => ?_⟩
    · exact hall _ (mem_wanted.mpr (Or.inl ⟨c, hc, rfl⟩)) x (inFlash_of_bit hc hx) hx
    · exact hall _ (mem_wanted.mpr (Or.inr (Or.inl ⟨c, hc, rfl⟩))) x (inFlash_of_alt hc hx) hx
    · exact hall _ (mem_wanted.mpr (Or.inr (Or.inr ⟨h, hm, rfl⟩))) x ⟨hlo, hhi⟩ hx

/-- As far as the alternate bit file has been read. -/
theorem Writes.configured_alt_eq (hw : Writes u f i f₁ f₂ f') (h₁ : ALTCONFIG_ADDRESS ≤ x) :
    i.configured f x = if x < ALTCONFIG_ADDRESS + i.altsz then i.bits (x - ALTCONFIG_ADDRESS)
      else i.configured f x := by
  split_ifs with h₂
  · exact hw.configured_alt h₁ h₂
  · rfl

/-- Whatever a header that is taken has in the flash is in the program. -/
theorem program_covers (hm : h ∈ taken i.phdrs) (hc : h.piece.Covers x) (hx : InFlash x) :
    i.InProgram x := by
  have hmem : h.piece ∈ i.headers := List.mem_map_of_mem hm
  obtain ⟨h₁, h₂⟩ := Piece.covers_iff.mp ⟨hx, hc⟩
  have ht : h.piece.Touches := touches_of_covers ⟨hx, hc⟩
  exact ⟨((lowest_le _ _).2 _ hmem ht).trans h₁, h₂.trans_le ((le_highest _ _).2 _ hmem ht)⟩

/-- Files that leave each other room. -/
structure Orderly (i : Files) : Prop where
  /-- The last argument tells of the alternate bit file what its own name does. -/
  read : i.altRead = i.alt
  whole : ∀ h ∈ i.phdrs, h.filesz ≠ 0 ∧ h.filesz ≤ h.memsz
  /-- Nothing is wanted twice with different bytes. -/
  agree : ∀ p ∈ i.wanted, ∀ q ∈ i.wanted, ∀ x, InFlash x → p.Covers x → q.Covers x →
    p.byte x = q.byte x
  repeats : ∀ c, i.alt = some c → ∀ x, (altPiece c).Covers x → ¬ i.InProgram x →
    (altPiece c).byte x = i.bits (x - ALTCONFIG_ADDRESS)
  /-- The program's first sector has nothing before it. -/
  room : ∀ p ∈ i.wanted, ∀ x, p.Covers x → x < i.first → SECTOROF x ≠ SECTOROF i.first

theorem Orderly.taken_eq (ho : Orderly i) : taken i.phdrs = i.phdrs :=
  List.takeWhile_eq_self_iff.mpr fun h hm => by simpa using (ho.whole h hm).1

/-- What is wanted beside the program is of a bit file, and before it. -/
theorem Orderly.before (ho : Orderly i) (hw : Writes u f i f₁ f₂ f') {q : Piece}
    (hq : q ∈ i.wanted) (hin : InFlash x) (hx : q.Covers x) (hp : ¬ i.InProgram x) :
    x < i.first := by
  have hlast := (le_highest RESET_ADDRESS i.headers).1
  change RESET_ADDRESS ≤ i.last at hlast
  have hlt : x < RESET_ADDRESS := by
    rcases mem_wanted.mp hq with ⟨c, hc, rfl⟩ | ⟨c, hc, rfl⟩ | ⟨h, hm, rfl⟩
    · have hsz : i.bitsz = c.length := by rw [Files.bitsz, hc]; rfl
      have hbitsz := hw.bitsz
      have hend := hx.2
      simp only [bitPiece] at hend
      omega
    · have hsz : i.altsz = c.length := by rw [Files.altsz, ho.read, hc]; rfl
      have haltsz := hw.altsz
      have hend := hx.2
      simp only [altPiece] at hend
      omega
    · exact absurd (program_covers (by rwa [ho.taken_eq]) hx hin) hp
  by_contra hle
  exact hp ⟨not_lt.mp hle, by omega⟩

/-- Where no section is, the buffer holds what a bit file has there. -/
theorem Orderly.buffer_eq (ho : Orderly i) (hw : Writes u f i f₁ f₂ f') {q : Piece}
    (hq : q ∈ i.wanted) (hin : InFlash x) (hx : q.Covers x)
    (hn : ∀ h ∈ i.phdrs, ¬ (InFlash x ∧ h.piece.Covers x)) :
    q.byte x = i.buffer (x - SPIFLASH) := by
  have hspi := spiflash_eq
  have hconf := config_address_eq
  have haddr := altconfig_address_eq
  have hbitsz := hw.apart
  rw [Files.buffer, memcpy]
  split_ifs with halt
  · obtain ⟨c, hc⟩ : ∃ c, i.alt = some c := by
      cases hc : i.alt with
      | none =>
        rw [Files.altsz, ho.read, hc, Option.getD_none, List.length_nil] at halt
        omega
      | some c => exact ⟨c, rfl⟩
    have hsz : i.altsz = c.length := by rw [Files.altsz, ho.read, hc]; rfl
    rw [ho.agree q hq (altPiece c) (mem_wanted.mpr (Or.inr (Or.inl ⟨c, hc, rfl⟩))) x hin hx
      ⟨by simp only [altPiece]; omega, by simp only [altPiece]; omega⟩, ho.read, hc]
    change c.getD _ 0 = c.getD _ 0
    congr 1
    change x - ALTCONFIG_ADDRESS = _
    omega
  · rcases mem_wanted.mp hq with ⟨c, hc, rfl⟩ | ⟨c, hc, rfl⟩ | ⟨h, hm, rfl⟩
    · obtain ⟨h₁, h₂⟩ := hx
      simp only [bitPiece] at h₁ h₂
      rw [bits_of_lt hc (by omega)]
      change c.getD _ 0 = c.getD _ 0
      congr 1
      change x - CONFIG_ADDRESS = _
      omega
    · have hsz : i.altsz = c.length := by rw [Files.altsz, ho.read, hc]; rfl
      obtain ⟨h₁, h₂⟩ := hx
      simp only [altPiece] at h₁ h₂
      omega
    · exact absurd ⟨hin, hx⟩ (hn h hm)

/-- Whatever the flash held. -/
theorem Orderly.consistent (ho : Orderly i) (h : zipload u f i = .ok f') : Consistent u f i := by
  obtain ⟨f₁, f₂, hw⟩ := writes_of_zipload h
  have hreads := hw.reads
  rw [ho.taken_eq] at hreads
  refine ⟨fun q hq x hin hx _ => ?_, fun q hq x hin hx hp he => ?_, fun c hc x hx hp _ => ?_,
    fun h hm x hin hx hp _ => absurd (program_covers (by rwa [ho.taken_eq]) hx hin) hp⟩
  · rw [Files.put]
    rcases overlay_of_reads (x := x) (c := i.buffer (x - SPIFLASH)) hreads
      (fun h hm => (ho.whole h hm).2) with ⟨h, hm, hc, he⟩ | ⟨hn, he⟩
    · rw [he]
      exact ho.agree q hq _ (mem_wanted.mpr (Or.inr (Or.inr ⟨h, hm, rfl⟩))) x hin hx hc
    · rw [he]
      exact ho.buffer_eq hw hq hin hx hn
  · have hlt := ho.before hw hq hin hx hp
    exact absurd (le_antisymm (sectorof_mono hlt.le) he.1.first) (ho.room q hq x hx hlt)
  · have hsz : i.altsz = c.length := by rw [Files.altsz, ho.read, hc]; rfl
    have hend := hx.2
    simp only [altPiece] at hend
    rw [if_pos (by omega)]
    exact ho.repeats c hc x hx hp

theorem put_of_covers (hs : i.sections u = [s]) (hx : InFlash x ∧ s.piece.Covers x) :
    i.put u x = s.piece.byte x := by
  rw [Files.put, hs, overlay, List.foldl_cons, if_pos hx, List.foldl_nil]

theorem configured_none (h₁ : i.bitsz = 0) (h₂ : i.altsz = 0) : i.configured f = f := by
  rw [Files.configured, Files.bitWritten, h₁, h₂,
    after_empty altconfig_whole,
    after_empty config_whole]

/-- Without bit files there is the one write. -/
theorem driven_of_exec (h₁ : i.bitsz = 0) (h₂ : i.altsz = 0)
    (h : ∀ s, Visited i.first (i.last - i.first) s →
      Intended u.exec f i.first (i.last - i.first) (i.code u) s) : Driven u f i := by
  refine ⟨?_, ?_, ?_⟩
  · rw [h₁]
    exact .of_empty config_whole
  · rw [h₂]
    exact .of_empty altconfig_whole
  · rw [configured_none h₁ h₂]
    exact .of_intended h

theorem flashWrite_of_write {g : Garbage} {addr len : ℕ} {data : ℕ → Byte} {r : Bool × Flash}
    (h : write g f addr len data true = .ok r) : flashWrite g f addr len data = .ok r := by
  rw [flashWrite, h]
  rfl

/-- Memory that suits pieces of four bytes. -/
def fours : Unset := ⟨0, fun _ => 0, ⟨fun _ => 4, fun _ _ => 0⟩, ⟨fun _ => 4, fun _ _ => 0⟩,
  ⟨fun _ => 4, fun _ _ => 0⟩⟩

/-- Two bit files without headers. -/
def twoBits : Files :=
  ⟨some ⟨['a'], [1, 2, 3, 4]⟩, some ⟨['b'], [5, 6, 7, 8]⟩, none, ['b']⟩

/-- An empty program header before one that is not. -/
def emptyFirst : Files :=
  ⟨none, none, some ⟨0x1200000, [⟨0, 0, 0, []⟩, ⟨0x1200000, 4, 4, [1, 2, 3, 4]⟩]⟩, ['c']⟩

def program : Files :=
  ⟨none, none, some ⟨0x1200000, [⟨0x1200000, 4, 4, [1, 2, 3, 4]⟩]⟩, ['c']⟩

theorem ok_bind {ε α β : Type} (v : α) (k : α → Except ε β) :
    (Except.ok v : Except ε α).bind k = k v := rfl

theorem loadExec_eq {fbuf : Buffer} {e : Elf} {secs : List Section}
    (hread : elfread u.heap e = some secs) (hentry : e.entry.toNat = RESET_ADDRESS)
    (hplace : placeAll ⟨fbuf, BitVec.ofNat 32 RESET_ADDRESS, 0⟩ (loaded secs) = .ok p)
    (hlo : SPIFLASH ≤ p.startaddr.toNat)
    (hhi : p.startaddr.toNat + p.codelen.toNat ≤ SPIFLASH + FLASHLEN)
    (hw : flashWrite u.exec f p.startaddr.toNat p.codelen.toNat
      (fun i => p.fbuf (p.startaddr.toNat - SPIFLASH + i)) = .ok (true, f')) :
    loadExec u fbuf f (some e) = .ok f' := by
  rw [loadExec, hread]
  change (if e.entry.toNat ≠ RESET_ADDRESS then _ else (placeAll _ (loaded secs)).bind _) = _
  rw [if_neg (not_not.mpr hentry), hplace, ok_bind, if_neg (not_lt.mpr hlo),
    if_neg (not_lt.mpr hhi), hw]
  rfl

theorem zipload_exec {e : Elf} {s : Name} (hu : u.bitsz = 0)
    (h : loadExec u ones f (some e) = .ok f') :
    zipload u f ⟨none, none, some e, s⟩ = .ok f' := by
  have hreset := reset_address_eq
  have hconf := config_address_eq
  have halt : loadAlt u s ones u.bitsz f none = .ok (ones, f) := by
    rw [loadAlt, if_pos (by omega)]
  rw [zipload, if_neg (by simp)]
  simp only [loadBit, Except.bind, halt]
  exact h

theorem zipload_emptyFirst (hu : u.bitsz = 0) : zipload u f emptyFirst = .ok f := by
  have hread : elfread u.heap ⟨0x1200000, [⟨0, 0, 0, []⟩, ⟨0x1200000, 4, 4, [1, 2, 3, 4]⟩]⟩ =
      some [⟨0, 0, fun i => [].getD i 0⟩, ⟨0x1200000, 4, fun i => [1, 2, 3, 4].getD i 0⟩] := rfl
  have hreset := reset_address_eq
  refine zipload_exec hu (loadExec_eq hread (by rw [hreset]; rfl) rfl ?_ ?_ ?_)
  · simp [hreset, spiflash_eq]
  · simp [hreset, spiflash_eq, flashlen_eq]
  · simp only [hreset]
    exact flashWrite_of_write (write_empty _ _ _ _ (by decide) (by simp [SECTORSZB, NPAGES]))

/-- A section that is in the flash can be placed. -/
theorem place_ok (p : Placing) (hlo : SPIFLASH ≤ s.start.toNat)
    (hhi : s.start.toNat + s.len.toNat ≤ SPIFLASH + FLASHLEN) : ∃ p', place p s = .ok p' := by
  have h₁ := spiflash_eq
  have h₂ := flashlen_eq
  have hadd : (s.start + s.len).toNat = s.start.toNat + s.len.toNat := by
    rw [BitVec.toNat_add]
    omega
  have hclip : s.clip = some (s.start, 0, s.len) := by
    rw [clip_eq (by rw [Section.below, if_neg (not_lt.mpr hlo)]), hadd, if_neg (not_lt.mpr hhi)]
  rw [place, hclip]
  simp only
  rw [if_neg (by omega)]
  exact ⟨_, rfl⟩

/-- A program of one word. -/
def word : Phdr := ⟨0x1200000, 4, 4, [1, 2, 3, 4]⟩

theorem word_placed : ∃ p, placeAll ⟨ones, BitVec.ofNat 32 RESET_ADDRESS, 0⟩
      [⟨0x1200000, 4, fun i => [1, 2, 3, 4].getD i 0⟩] = .ok p ∧
    p.startaddr.toNat = 0x1200000 ∧ p.codelen.toNat = 4 ∧
    ∀ k < 4, p.fbuf (0x1200000 - SPIFLASH + k) = [1, 2, 3, 4].getD k 0 := by
  have hreset := reset_address_eq
  have hspi := spiflash_eq
  have hlen := flashlen_eq
  let s : Section := ⟨0x1200000, 4, fun i => [1, 2, 3, 4].getD i 0⟩
  have hstart : s.start.toNat = 0x1200000 := rfl
  have hsize : s.len.toNat = 4 := rfl
  obtain ⟨p, hp⟩ := place_ok (s := s) ⟨ones, BitVec.ofNat 32 RESET_ADDRESS, 0⟩ (by omega) (by omega)
  have hfirst := first_eq s
  have hlast := last_eq s
  have h₀ : (BitVec.ofNat 32 RESET_ADDRESS).toNat = RESET_ADDRESS := by simp [hreset]
  rcases place_cases (by simp [hreset]) hp with ⟨hn, -⟩ | ⟨-, h₁, h₂, -, h₃⟩
  · exact absurd (touches_iff.mpr ⟨by omega, by omega⟩) hn
  · simp only [h₀, BitVec.ofNat_eq_ofNat, BitVec.toNat_ofNat, Nat.zero_mod, Nat.add_zero] at h₁ h₂
    rw [if_neg (by omega)] at h₁
    rw [if_pos (by omega)] at h₂
    refine ⟨p, ?_, by omega, by omega, fun k hk => ?_⟩
    · rw [placeAll, hp]
      rfl
    · have hb := h₃ (0x1200000 + k) (by omega)
      rw [if_pos (by omega), hstart, Nat.add_sub_cancel_left] at hb
      refine Eq.trans ?_ hb
      congr 1
      omega

theorem zipload_program {P : Flash → Prop} (hu : u.bitsz = 0) (hw : ∀ data : ℕ → Byte,
      (∀ k < 4, data k = [1, 2, 3, 4].getD k 0) →
      ∃ f', flashWrite u.exec f 0x1200000 4 data = .ok (true, f') ∧ P f') :
    ∃ f', zipload u f program = .ok f' ∧ P f' := by
  have hreset := reset_address_eq
  have hspi := spiflash_eq
  have hlen := flashlen_eq
  obtain ⟨p, hp, hstart, hcode, hbytes⟩ := word_placed
  obtain ⟨f', hf', hP⟩ := hw _ hbytes
  refine ⟨f', zipload_exec hu (loadExec_eq (u := u) rfl (by rw [hreset]; rfl) hp (by omega)
    (by omega) ?_), hP⟩
  rw [hstart, hcode]
  exact hf'

/-- A bit file, and a program that begins where it ends. -/
def shared : Files :=
  ⟨some ⟨['a'], [1, 2, 3, 4]⟩, none, some ⟨0x1200000, [⟨0x1000004, 4, 4, [5, 6, 7, 8]⟩]⟩, ['c']⟩

/-- Memory with the lengths that are meant for them. -/
def sharedLengths : Unset := ⟨0, fun _ => 0, ⟨fun _ => 4, fun _ _ => 0⟩, ⟨fun _ => 0, fun _ _ => 0⟩,
  ⟨fun _ => 0x1ffffc, fun _ _ => 0⟩⟩

theorem shared_bit : shared.bit = some [1, 2, 3, 4] := by
  change BinFile.contents ⟨['a'], [1, 2, 3, 4]⟩ ['a'] FLASHLEN = _
  rw [flashlen_eq]
  rfl

theorem shared_range : shared.first = 0x1000004 ∧ shared.last = 0x1200000 := by
  have hreset := reset_address_eq
  have hspi := spiflash_eq
  have hlen := flashlen_eq
  let q : Piece := Phdr.piece ⟨0x1000004, 4, 4, [5, 6, 7, 8]⟩
  have hheaders : shared.headers = [q] := rfl
  have hstart : q.start = 0x1000004 := rfl
  have hsize : q.len = 4 := rfl
  have ht : q.Touches := ⟨by omega, by omega⟩
  constructor
  · rw [Files.first, hheaders, lowest, List.foldl_cons, if_pos ht, List.foldl_nil, Piece.first]
    omega
  · rw [Files.last, hheaders, highest, List.foldl_cons, if_pos ht, List.foldl_nil, Piece.last]
    omega

theorem driven_shared : Driven sharedLengths (fun _ => 0xff) shared := by
  have hconf := config_address_eq
  obtain ⟨hfirst, hlast⟩ := shared_range
  have hbitsz : shared.bitsz = 4 := by rw [Files.bitsz, shared_bit]; rfl
  refine ⟨.of_intended fun s hv => ?_, .of_empty altconfig_whole, .of_intended fun s hv => ?_⟩
  · rw [hbitsz] at hv ⊢
    exact intended_of_len (fun _ => rfl) (by omega) (by omega) (by omega) hv
  · rw [hfirst, hlast] at hv ⊢
    exact intended_of_len (fun _ => rfl) (by decide) (by decide) (by decide) hv

/-- Between the bit file and the end of its sector the flash is blank. -/
theorem not_erased_shared (hx : SECTOROF x = 0x1000000) :
    ¬ shared.Erased sharedLengths (fun _ => 0xff) x := by
  have hconf := config_address_eq
  obtain ⟨hfirst, hlast⟩ := shared_range
  have hbitsz : shared.bitsz = 4 := by rw [Files.bitsz, shared_bit]; rfl
  rintro ⟨-, y, hy, hne⟩
  rw [hx, hfirst, hlast] at hy
  have hpart : 0x1000004 ≤ y ∧ y < 0x1010000 := by
    simpa [FlashDrvr.Part, baseOf, endOf, SECTORSZB, NPAGES] using hy
  have hblank : shared.configured (fun _ => 0xff) y = 0xff := by
    change after _ ALTCONFIG_ADDRESS 0 _ y = 0xff
    rw [after_empty altconfig_whole, Files.bitWritten, hbitsz, after,
      if_neg (by omega), if_neg ?_]
    rintro ⟨-, z, -, hz⟩
    exact hz BitVec.allOnes_and
  rw [hblank] at hne
  exact hne BitVec.allOnes_and

theorem consistent_shared : Consistent sharedLengths (fun _ => 0xff) shared := by
  have hconf := config_address_eq
  obtain ⟨hfirst, hlast⟩ := shared_range
  have hbit (q : ℕ) (hq : (bitPiece [1, 2, 3, 4]).Covers q) : 0x1000000 ≤ q ∧ q < 0x1000004 := by
    simp only [Piece.Covers, bitPiece, hconf, List.length_cons, List.length_nil] at hq
    omega
  have hwanted (q : Piece) (hq : q ∈ shared.wanted) :
      q = bitPiece [1, 2, 3, 4] ∨ q = Phdr.piece ⟨0x1000004, 4, 4, [5, 6, 7, 8]⟩ := by
    rcases mem_wanted.mp hq with ⟨c, hc, rfl⟩ | ⟨c, hc, -⟩ | ⟨h, hm, rfl⟩
    · rw [shared_bit] at hc
      rw [Option.some.inj hc]
      exact Or.inl rfl
    · cases hc
    · obtain rfl := List.mem_singleton.mp hm
      exact Or.inr rfl
  have hprogram (h : Phdr) (hm : h ∈ shared.phdrs) (x : ℕ) (hin : InFlash x)
      (hx : h.piece.Covers x) : shared.InProgram x := by
    obtain rfl := List.mem_singleton.mp hm
    exact program_covers (i := shared) (by simp [shared, Files.phdrs, taken]) hx hin
  refine ⟨fun q hq x hin hx hp => ?_, fun q hq x hin hx hp he => ?_,
    fun c hc => (by cases hc), fun h hm x hin hx hp => absurd (hprogram h hm x hin hx) hp⟩
  · rcases hwanted q hq with rfl | rfl
    · have := hbit x hx
      have := hp.1
      omega
    · exact (put_of_covers (s := ⟨0x1000004, 4, fun i => [5, 6, 7, 8].getD i 0⟩) rfl
        ⟨hin, hx⟩).symm
  · rcases hwanted q hq with rfl | rfl
    · refine absurd he (not_erased_shared ?_)
      have := hbit x hx
      simp only [SECTOROF, SECTORSZB, NPAGES]
      omega
    · exact absurd (hprogram _ (List.mem_singleton.mpr rfl) x hin hx) hp

/-- The bit file's sector is not erased when the program goes into it. -/
theorem zipload_shared : ∃ f', zipload sharedLengths (fun _ => 0xff) shared = .ok f' := by
  have hconf := config_address_eq
  have hreset := reset_address_eq
  have hspi := spiflash_eq
  have hlen := flashlen_eq
  let s : Section := ⟨0x1000004, 4, fun i => [5, 6, 7, 8].getD i 0⟩
  have hstart : s.start.toNat = 0x1000004 := rfl
  have hsize : s.len.toNat = 4 := rfl
  let fbuf := memcpy ones 0 4 fun i => [1, 2, 3, 4].getD i 0
  have h₀ : (BitVec.ofNat 32 RESET_ADDRESS).toNat = RESET_ADDRESS := by simp [hreset]
  obtain ⟨p, hp⟩ := place_ok (s := s) ⟨fbuf, BitVec.ofNat 32 RESET_ADDRESS, 0⟩ (by omega) (by omega)
  have hf := first_eq s
  have hl := last_eq s
  have hrange : p.startaddr.toNat = 0x1000004 ∧ p.codelen.toNat = 0x1ffffc := by
    rcases place_cases (by simp [hreset]) hp with ⟨hn, -⟩ | ⟨-, h₁, h₂, -, -⟩
    · exact absurd (touches_iff.mpr ⟨by omega, by omega⟩) hn
    · simp only [h₀, BitVec.ofNat_eq_ofNat, BitVec.toNat_ofNat, Nat.zero_mod, Nat.add_zero] at h₁ h₂
      rw [if_pos (by omega)] at h₁
      rw [if_neg (by omega)] at h₂
      omega
  obtain ⟨f₁, hf₁, -⟩ := write_intended (g := sharedLengths.bit) (fun _ => 0xff) CONFIG_ADDRESS 4
    fbuf true (fun _ => rfl) (by omega) (by omega) (by omega)
  obtain ⟨f₂, hf₂, -⟩ := write_intended (g := sharedLengths.exec) f₁ 0x1000004 0x1ffffc
    (fun i => p.fbuf (0x1000004 - SPIFLASH + i)) true (fun _ => rfl) (by decide) (by decide)
    (by decide)
  refine ⟨f₂, ?_⟩
  have hbit : loadBit sharedLengths (fun _ => 0xff) shared.bitfile = .ok (fbuf, 4, f₁) := by
    have hc : (⟨['a'], [1, 2, 3, 4]⟩ : BinFile).contents ['a'] FLASHLEN = some [1, 2, 3, 4] :=
      shared_bit
    rw [shared, loadBit, hc]
    exact congrArg (Except.map _) (flashWrite_of_write hf₁)
  have hexec : loadExec sharedLengths fbuf f₁ shared.execfile = .ok f₂ := by
    refine loadExec_eq (p := p) rfl (by rw [hreset]; rfl) ?_ (by omega) (by omega) ?_
    · change placeAll _ [s] = _
      rw [placeAll, hp]
      rfl
    · rw [hrange.1, hrange.2]
      exact flashWrite_of_write hf₂
  rw [zipload, if_neg (by simp [shared]), hbit]
  simp only [Except.bind]
  rw [show loadAlt sharedLengths shared.lastArg fbuf 4 f₁ shared.altbitfile = .ok (fbuf, f₁) from
    if_pos (by omega)]
  exact hexec

theorem word_visited {s : ℕ} (hv : Visited 0x1200000 4 s) : s = 0x1200000 := by
  obtain ⟨h₁, h₂, h₃⟩ := hv
  simp only [SECTOROF, SECTORSZB, NPAGES] at *
  omega

theorem word_whole : WholePart 0x1200000 4 0x1200000 := by
  constructor <;> simp [baseOf, endOf, SECTORSZB, NPAGES]

theorem word_part (hx : Part 0x1200000 4 0x1200000 x) : 0x1200000 ≤ x ∧ x < 0x1200004 := by
  simpa [FlashDrvr.Part, baseOf, endOf, SECTORSZB, NPAGES] using hx

theorem program_range : program.first = 0x1200000 ∧ program.last = 0x1200004 := by
  have hreset := reset_address_eq
  have hspi := spiflash_eq
  have hlen := flashlen_eq
  have hheaders : program.headers = [word.piece] := rfl
  have hstart : word.piece.start = 0x1200000 := rfl
  have hsize : word.piece.len = 4 := rfl
  have ht : word.piece.Touches := ⟨by omega, by omega⟩
  constructor
  · rw [Files.first, hheaders, lowest, List.foldl_cons, if_pos ht, List.foldl_nil, Piece.first]
    omega
  · rw [Files.last, hheaders, highest, List.foldl_cons, if_pos ht, List.foldl_nil, Piece.last]
    omega

theorem program_put (hin : InFlash x) (hx : word.piece.Covers x) :
    program.put u x = word.piece.byte x :=
  put_of_covers (s := ⟨0x1200000, 4, fun i => [1, 2, 3, 4].getD i 0⟩) rfl ⟨hin, hx⟩

theorem program_code {k : ℕ} (hk : k < 4) : program.code u k = [1, 2, 3, 4].getD k 0 := by
  have hspi := spiflash_eq
  have hlen := flashlen_eq
  have hstart : word.piece.start = 0x1200000 := rfl
  have hsize : word.piece.len = 4 := rfl
  rw [Files.code, program_range.1, program_put ⟨by omega, by omega⟩ ⟨by omega, by omega⟩,
    Piece.byte, hstart, Nat.add_sub_cancel_left]
  rfl

/-- The program comes out right, if its sector does. -/
theorem driven_program (h : Intended u.exec f 0x1200000 4 (program.code u) 0x1200000) :
    Driven u f program := by
  refine driven_of_exec rfl rfl fun s hv => ?_
  rw [program_range.1, program_range.2] at hv ⊢
  obtain rfl := word_visited hv
  exact h

theorem orderly_program : Orderly program := by
  have hwanted (q : Piece) (hq : q ∈ program.wanted) : q = word.piece := List.mem_singleton.mp hq
  refine ⟨rfl, fun h hm => ?_, fun q hq q' hq' x _ _ _ => ?_,
    fun c hc => (by cases hc), fun q hq x hx hlt => ?_⟩
  · obtain rfl : h = word := List.mem_singleton.mp hm
    decide
  · rw [hwanted q hq, hwanted q' hq']
  · rw [hwanted q hq] at hx
    rw [program_range.1] at hlt
    exact absurd hx.1 (not_le.mpr hlt)

/-- Nothing is written of the program. -/
theorem emptyFirst_range : emptyFirst.first = RESET_ADDRESS ∧ emptyFirst.last = RESET_ADDRESS :=
  ⟨rfl, rfl⟩

theorem driven_emptyFirst : Driven u f emptyFirst := by
  refine driven_of_exec rfl rfl fun s hv => absurd hv ?_
  rw [emptyFirst_range.1, emptyFirst_range.2, Nat.sub_self]
  exact not_visited_empty reset_whole

theorem consistent_emptyFirst : Consistent u f emptyFirst ↔
    ∀ k < 4, f (0x1200000 + k) = [1, 2, 3, 4].getD k 0 := by
  have hspi := spiflash_eq
  have hlen := flashlen_eq
  have hstart : word.piece.start = 0x1200000 := rfl
  have hsize : word.piece.len = 4 := rfl
  have hdata (k : ℕ) : word.piece.data k = [1, 2, 3, 4].getD k 0 := rfl
  have hmem : word ∈ emptyFirst.phdrs := List.mem_cons_of_mem _ List.mem_cons_self
  have hpiece (q : Piece) (hq : q ∈ emptyFirst.phdrs.map Phdr.piece) {x : ℕ} (hx : q.Covers x) :
      q = word.piece := by
    simp only [emptyFirst, Files.phdrs, Option.map_some, Option.getD_some, List.map_cons,
      List.map_nil, List.mem_cons, List.not_mem_nil, or_false] at hq
    rcases hq with rfl | rfl
    · exact absurd hx.2 (by simp [Phdr.piece])
    · rfl
  have hprogram (x : ℕ) : ¬ emptyFirst.InProgram x := by
    rintro ⟨h₁, h₂⟩
    rw [emptyFirst_range.1] at h₁
    rw [emptyFirst_range.2] at h₂
    omega
  have herased (x : ℕ) : ¬ emptyFirst.Erased u f x := by
    rintro ⟨hv, -⟩
    rw [emptyFirst_range.1, emptyFirst_range.2, Nat.sub_self] at hv
    exact not_visited_empty reset_whole hv
  constructor
  · intro hc k hk
    have hb := hc.left word hmem (0x1200000 + k) ⟨by omega, by omega⟩ ⟨by omega, by omega⟩
      (hprogram _) (herased _)
    rw [configured_none rfl rfl, Piece.byte, hstart, Nat.add_sub_cancel_left] at hb
    exact hb.symm
  · intro hf
    refine ⟨fun _ _ _ _ _ hp => absurd hp (hprogram _), fun _ _ _ _ _ _ he =>
      absurd he (herased _), fun c hc => (by cases hc), fun h hm x _ hx _ _ => ?_⟩
    have hq := hpiece h.piece (List.mem_map_of_mem hm) hx
    rw [hq] at hx ⊢
    have hlo : 0x1200000 ≤ x := hx.1
    have hb := hf (x - 0x1200000) (by have := hx.2; omega)
    rw [Nat.add_sub_cancel' hlo] at hb
    rw [configured_none rfl rfl, hb, Piece.byte, hstart, hdata]

/-- Success, with all of it in the flash: if the files are consistent, and only then. -/
theorem loaded_iff_of_zipload (hd : Driven u f i) (h : zipload u f i = .ok f') :
    Loaded i f' ↔ Consistent u f i := by
  obtain ⟨f₁, f₂, hw⟩ := writes_of_zipload h
  have hafter (q : Piece) (hq : q ∈ i.wanted) (x : ℕ) (hin : InFlash x) (hx : q.Covers x) :
      f' x = after (i.configured f) i.first (i.last - i.first) (i.code u) x :=
    hw.eq_after hd (Or.inr (Or.inr (Or.inr ⟨q, hq, hin, hx⟩)))
  rw [loaded_iff_wanted]
  constructor
  · intro hall
    have hbyte (q : Piece) (hq : q ∈ i.wanted) (x : ℕ) (hin : InFlash x) (hx : q.Covers x) :
        q.byte x = after (i.configured f) i.first (i.last - i.first) (i.code u) x := by
      rw [← hall q hq x hin hx]
      exact hafter q hq x hin hx
    refine ⟨fun q hq x hin hx hp => ?_, fun q hq x hin hx hp he => ?_, fun c hc x hx hp he => ?_,
      fun h hm x hin hx hp he => ?_⟩
    · exact (hbyte q hq x hin hx).trans (after_program hp)
    · exact (hbyte q hq x hin hx).trans ((after_beside hp).1 he)
    · rw [← hw.configured_alt_eq hx.1]
      exact (hbyte _ (mem_wanted.mpr (Or.inr (Or.inl ⟨c, hc, rfl⟩))) x (inFlash_of_alt hc hx)
        hx).trans ((after_beside hp).2 he)
    · exact (hbyte _ (mem_wanted.mpr (Or.inr (Or.inr ⟨h, hm, rfl⟩))) x hin hx).trans
        ((after_beside hp).2 he)
  · intro hc q hq x hin hx
    rw [hafter q hq x hin hx]
    by_cases hp : i.InProgram x
    · rw [after_program hp]
      exact (hc.program q hq x hin hx hp).symm
    · by_cases he : i.Erased u f x
      · rw [(after_beside hp).1 he]
        exact (hc.erased q hq x hin hx hp he).symm
      · rw [(after_beside hp).2 he]
        rcases mem_wanted.mp hq with ⟨c, hc', rfl⟩ | ⟨c, hc', rfl⟩ | ⟨h, hm, rfl⟩
        · have hsz : i.bitsz = c.length := by rw [Files.bitsz, hc']; rfl
          obtain ⟨h₁, h₂⟩ := hx
          simp only [bitPiece] at h₁ h₂
          rw [hw.configured_bit h₁ (by omega), bits_of_lt hc' (by omega)]
          rfl
        · rw [hw.configured_alt_eq hx.1]
          exact (hc.alt c hc' x hx hp he).symm
        · exact (hc.left h hm x hin hx hp he).symm

/-- A program of one word, into a blank flash with the length that is meant, and a second time
with whatever length; one that shares a sector with a bit file; and one that is left out. -/
theorem loaded_iff_of_zipload_program :
    (∃ f', zipload fours (fun _ => 0xff) program = .ok f' ∧ Loaded program f') ∧
      (∀ u f, u.bitsz = 0 → (∀ k < 4, f (0x1200000 + k) = [1, 2, 3, 4].getD k 0) →
        zipload u f program = .ok f ∧ Loaded program f) ∧
      (∃ f', zipload sharedLengths (fun _ => 0xff) shared = .ok f' ∧ Loaded shared f') ∧
      ∀ u f, u.bitsz = 0 → zipload u f emptyFirst = .ok f ∧
        (Loaded emptyFirst f ↔ ∀ k < 4, f (0x1200000 + k) = [1, 2, 3, 4].getD k 0) := by
  refine ⟨?_, fun u f hu hf => ?_, ?_, fun u f hu => ?_⟩
  · have hd : Driven fours (fun _ => 0xff) program := driven_program
      ⟨word_whole, fun p hp => clipped_intended rfl (word_part hp.1).2 (by decide)⟩
    obtain ⟨f', hf', -⟩ := zipload_program (u := fours) (f := fun _ => 0xff)
      (P := fun _ => True) rfl fun data _ => by
        obtain ⟨f', hf', -⟩ := write_intended (g := fours.exec) (fun _ => 0xff) 0x1200000 4 data
          true (fun _ => rfl) (by decide) (by decide) (by decide)
        exact ⟨f', flashWrite_of_write hf', trivial⟩
    exact ⟨f', hf', (loaded_iff_of_zipload hd hf').mpr (orderly_program.consistent hf')⟩
  · have hsame (data : ℕ → Byte) (hd : ∀ k < 4, data k = [1, 2, 3, 4].getD k 0) :
        Same f 0x1200000 4 data 0x1200000 := by
      intro x hx
      have hb := word_part hx
      have hx' := hf (x - 0x1200000) (by omega)
      rw [Nat.add_sub_cancel' hb.1] at hx'
      rw [hx', hd (x - 0x1200000) (by omega)]
    have hd : Driven u f program :=
      driven_program (intended_of_same word_whole (hsame _ fun _ => program_code))
    obtain ⟨f', hf', rfl⟩ := zipload_program (f := f) (P := fun f' => f' = f) hu fun data hd =>
      ⟨f, flashWrite_of_write (write_same (by decide) fun s hv => by
        obtain rfl := word_visited hv
        exact ⟨word_whole, hsame data hd⟩), rfl⟩
    exact ⟨hf', (loaded_iff_of_zipload hd hf').mpr (orderly_program.consistent hf')⟩
  · obtain ⟨f', hf'⟩ := zipload_shared
    exact ⟨f', hf', (loaded_iff_of_zipload driven_shared hf').mpr consistent_shared⟩
  · have hf' := zipload_emptyFirst (f := f) hu
    exact ⟨hf', (loaded_iff_of_zipload driven_emptyFirst hf').trans consistent_emptyFirst⟩

theorem byte_of_zipload_twoBits : ∃ f', zipload fours (fun _ => 0xff) twoBits = .ok f' ∧
    f' ALTCONFIG_ADDRESS = 1 := by
  have hconf := config_address_eq
  have haddr := altconfig_address_eq
  have hreset := reset_address_eq
  have hspi := spiflash_eq
  have hlen := flashlen_eq
  have h₁ : (⟨['a'], [1, 2, 3, 4]⟩ : BinFile).contents ['a'] FLASHLEN = some [1, 2, 3, 4] := by
    rw [hlen]
    rfl
  have h₂ : (⟨['b'], [5, 6, 7, 8]⟩ : BinFile).contents ['b']
      (FLASHLEN - (ALTCONFIG_ADDRESS - SPIFLASH)) =
      some [5, 6, 7, 8] := by
    rw [hlen, haddr, hspi]
    rfl
  let fbuf := memcpy ones 0 4 fun i => [1, 2, 3, 4].getD i 0
  let fbuf' := memcpy fbuf (ALTCONFIG_ADDRESS - SPIFLASH) 4 fun i => [5, 6, 7, 8].getD i 0
  obtain ⟨f₁, hf₁, -⟩ := write_intended (g := fours.bit) (fun _ => 0xff) CONFIG_ADDRESS 4 fbuf true
    (fun _ => rfl) (by omega) (by omega) (by rw [hconf]; decide)
  obtain ⟨f₂, hf₂, hwords⟩ := write_intended (g := fours.alt) f₁ ALTCONFIG_ADDRESS 4 fbuf' true
    (fun _ => rfl) (by omega) (by omega) (by rw [haddr]; decide)
  refine ⟨f₂, ?_, ?_⟩
  · have hbit : loadBit fours (fun _ => 0xff) twoBits.bitfile = .ok (fbuf, 4, f₁) := by
      rw [twoBits, loadBit, h₁]
      exact congrArg (Except.map _) (flashWrite_of_write hf₁)
    have halt : loadAlt fours ['b'] fbuf 4 f₁ twoBits.altbitfile = .ok (fbuf', f₂) := by
      rw [twoBits, loadAlt, if_pos (by omega), h₂]
      simp only [List.length_cons, List.length_nil]
      rw [if_pos (by omega)]
      exact congrArg (Except.map _) (flashWrite_of_write hf₂)
    rw [zipload, if_neg (by simp [twoBits]), hbit]
    simp only [Except.bind]
    change (loadAlt fours ['b'] fbuf 4 f₁ twoBits.altbitfile).bind _ = _
    rw [halt]
    rfl
  · have hd := (hwords.written (by omega)).data 0 (by decide)
    rw [Nat.add_zero] at hd
    rw [hd]
    change memcpy fbuf (ALTCONFIG_ADDRESS - SPIFLASH) 4 _ 0 = 1
    rw [memcpy, if_neg (by omega)]
    rfl

/-- A header is left out after an empty one, whatever the memory holds; and the second bit
file is not there, the first being there twice. -/
theorem images_missed :
    (∀ u f, u.bitsz = 0 → f 0x1200000 = 0xff →
      zipload u f emptyFirst = .ok f ∧ ¬ Loaded emptyFirst f) ∧
    ∃ f', zipload fours (fun _ => 0xff) twoBits = .ok f' ∧ ¬ Loaded twoBits f' := by
  refine ⟨fun u f hu hf => ⟨zipload_emptyFirst hu, fun hl => ?_⟩, ?_⟩
  · have hb := hl.phdrs ⟨0x1200000, 4, 4, [1, 2, 3, 4]⟩ (by simp [emptyFirst, Files.phdrs])
      0x1200000 ⟨le_refl _, by decide⟩ (by rw [spiflash_eq]; decide)
      (by rw [spiflash_eq, flashlen_eq]; decide)
    rw [hf] at hb
    exact absurd hb (by decide)
  · obtain ⟨f', hf', hb⟩ := byte_of_zipload_twoBits
    refine ⟨f', hf', fun hl => ?_⟩
    have halt : twoBits.alt = some [5, 6, 7, 8] := by
      change BinFile.contents ⟨['b'], [5, 6, 7, 8]⟩ ['b'] _ = _
      rw [flashlen_eq, altconfig_address_eq, spiflash_eq]
      rfl
    have ha := hl.alt [5, 6, 7, 8] halt ALTCONFIG_ADDRESS ⟨le_refl _, by simp [altPiece]⟩
    rw [hb] at ha
    simp [altPiece, Piece.byte] at ha

end S6Soc.Zipload
