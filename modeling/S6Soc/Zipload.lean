import Mathlib
import S6Soc.FlashDrvr

/-! The loader `zipload`, from its files to the flash, with the reader of program headers,
`elfread`. Files that cannot be opened and files that are no ELF files are left out. -/
namespace S6Soc.Zipload
open FlashDrvr NorFlash

@[irreducible] def CONFIG_ADDRESS : ℕ := SPIFLASH

/-- `SPIFLASH+0x100000`. -/
@[irreducible] def ALTCONFIG_ADDRESS : ℕ := 0x1100000

/-- `SPIFLASH+0x200000`. -/
@[irreducible] def RESET_ADDRESS : ℕ := 0x1200000

/-- A file's name, a character at a time. -/
abbrev Name := List Char

structure BinFile where
  name : Name
  bytes : List Byte

/-- `strcmp(&name[strlen(name)-4], ".bit") == 0`. -/
def isBit (name : Name) : Bool := name.drop (name.length - 4) == ['.', 'b', 'i', 't']

def SEARCHLN : ℕ := 204

def matchstr : List Byte := List.replicate 12 0xff ++ [0xaa, 0x99, 0x55, 0x66]

/-- What the file holds from the end of the Xilinx header on. -/
def skipBitfileHeader (bytes : List Byte) : Option (List Byte) :=
  if bytes.length < SEARCHLN then none
  else
    ((List.range (SEARCHLN - matchstr.length)).find? fun start =>
      (bytes.drop start).take matchstr.length == matchstr).map bytes.drop

/-- What is read of a file into `room` bytes; whether it has a header is told by a name. -/
def BinFile.contents (file : BinFile) (name : Name) (room : ℕ) : Option (List Byte) :=
  (if isBit name then skipBitfileHeader file.bytes else some file.bytes).map (List.take room)

/-- A program header, with what the file holds from `p_offset` on. -/
structure Phdr where
  paddr : Word
  filesz : Word
  memsz : Word
  file : List Byte

structure Section where
  start : Word
  len : Word
  data : ℕ → Byte

structure Elf where
  entry : Word
  phdrs : List Phdr

/-- Data that are not read are zeros, but for the last four bytes of all, which are not
cleared; `heap` is what they hold. -/
def Phdr.section (h : Phdr) (last : Bool) (heap : ℕ → Byte) : Option Section :=
  if h.memsz < h.filesz then
    some ⟨h.paddr, h.filesz, fun i => if last ∧ h.filesz.toNat ≤ i + 4 then heap i else 0⟩
  else if h.file.length < h.filesz.toNat then none
  else some ⟨h.paddr, h.filesz, fun i => h.file.getD i 0⟩

/-- The sections, without the empty one that ends them. -/
def elfSections (heap : ℕ → Byte) : List Phdr → Option (List Section)
  | [] => some []
  | h :: hs => do
    let s ← h.section hs.isEmpty heap
    let rest ← elfSections heap hs
    some (s :: rest)

def elfread (heap : ℕ → Byte) (e : Elf) : Option (List Section) :=
  if e.phdrs = [] then none else elfSections heap e.phdrs

inductive Exit
  | failure | assertion | busErr | overrun

/-- What the loader finds in memory that it has not set: `bitsz` where there is no bit file,
the heap, and what the flash driver finds in each of its calls. -/
structure Unset where
  bitsz : ℕ
  heap : ℕ → Byte
  bit : Garbage
  alt : Garbage
  exec : Garbage

structure Files where
  bitfile : Option BinFile
  altbitfile : Option BinFile
  execfile : Option Elf
  lastArg : Name

abbrev Buffer := ℕ → Byte

def memcpy (buf : Buffer) (dst len : ℕ) (src : ℕ → Byte) : Buffer :=
  fun i => if dst ≤ i ∧ i < dst + len then src (i - dst) else buf i

def ones : Buffer := fun _ => BitVec.allOnes 8

def Exit.ofStop : Stop → Exit
  | .busErr _ => .busErr
  | .assertion => .assertion

/-- `flash->write`; whether it succeeds is left to the caller. -/
def flashWrite (g : Garbage) (f : Flash) (addr len : ℕ) (data : ℕ → Byte) :
    Except Exit (Bool × Flash) :=
  (write g f addr len data true).mapError Exit.ofStop

/-- The bit file: what `write` returns is not looked at. -/
def loadBit (u : Unset) (f : Flash) : Option BinFile → Except Exit (Buffer × ℕ × Flash)
  | none => .ok (ones, u.bitsz, f)
  | some file =>
    match file.contents file.name FLASHLEN with
    | none => .error .failure
    | some c =>
      let fbuf := memcpy ones 0 c.length fun i => c.getD i 0
      (flashWrite u.bit f CONFIG_ADDRESS c.length fbuf).map fun r => (fbuf, c.length, r.2)

/-- The alternate bit file: it is read into the buffer at its own place, and the buffer is
written from its beginning; the name that is looked at is that of the last argument. -/
def loadAlt (u : Unset) (lastArg : Name) (fbuf : Buffer) (bitsz : ℕ) (f : Flash) :
    Option BinFile → Except Exit (Buffer × Flash)
  | none => if CONFIG_ADDRESS + bitsz < RESET_ADDRESS then .ok (fbuf, f) else .error .assertion
  | some file =>
    if CONFIG_ADDRESS + bitsz < ALTCONFIG_ADDRESS then
      match file.contents lastArg (FLASHLEN - (ALTCONFIG_ADDRESS - SPIFLASH)) with
      | none => .error .failure
      | some c =>
        if ALTCONFIG_ADDRESS + c.length < RESET_ADDRESS then
          let fbuf' := memcpy fbuf (ALTCONFIG_ADDRESS - SPIFLASH) c.length fun i => c.getD i 0
          (flashWrite u.alt f ALTCONFIG_ADDRESS c.length fbuf').map fun r => (fbuf', r.2)
        else .error .assertion
    else .error .assertion

/-- The buffer and the part of it that is to be written. -/
structure Placing where
  fbuf : Buffer
  startaddr : Word
  codelen : Word

/-- One section: where it begins in the flash, the first byte of it there, and how many. -/
def Section.clip (s : Section) : Option (Word × Word × Word) :=
  let below : Option (Word × Word × Word) :=
    if s.start.toNat < SPIFLASH then
      let idx := BitVec.ofNat 32 SPIFLASH - s.start
      if s.len < idx then none else some (BitVec.ofNat 32 SPIFLASH, idx, s.len - idx)
    else some (s.start, 0, s.len)
  below.bind fun (start, idx, ln) =>
    if SPIFLASH + FLASHLEN < (start + ln).toNat then
      if SPIFLASH + FLASHLEN < start.toNat then none
      else some (start, idx, BitVec.ofNat 32 (SPIFLASH + FLASHLEN) - start)
    else some (start, idx, ln)

/-- The section begins before all others; it counts from where it begins itself. -/
def Placing.lower (p : Placing) (s : Section) (start : Word) : Placing :=
  if start < p.startaddr then
    { p with startaddr := s.start, codelen := p.codelen + (p.startaddr - s.start) }
  else p

/-- The section ends after all others; it counts to where it ends itself. -/
def Placing.upper (p : Placing) (s : Section) (last : Word) : Placing :=
  if p.startaddr + p.codelen < last then { p with codelen := s.start + s.len - p.startaddr } else p

def place (p : Placing) (s : Section) : Except Exit Placing :=
  match s.clip with
  | none => .ok p
  | some (start, idx, ln) =>
    let p' := (p.lower s start).upper s (start + ln)
    if FLASHLEN < start.toNat - SPIFLASH + ln.toNat then .error .overrun
    else .ok { p' with
      fbuf := memcpy p'.fbuf (start.toNat - SPIFLASH) ln.toNat fun i => s.data (idx.toNat + i) }

def placeAll : Placing → List Section → Except Exit Placing
  | p, [] => .ok p
  | p, s :: ss => (place p s).bind fun p' => placeAll p' ss

/-- The loop over the sections ends at the first that is empty. -/
def loaded (secs : List Section) : List Section := secs.takeWhile fun s => s.len != 0

/-- The program. Beyond the flash there is nothing to be read or written. -/
def loadExec (u : Unset) (fbuf : Buffer) (f : Flash) : Option Elf → Except Exit Flash
  | none => .ok f
  | some e =>
    match elfread u.heap e with
    | none => .error .failure
    | some secs =>
      if e.entry.toNat ≠ RESET_ADDRESS then .error .assertion
      else
        (placeAll ⟨fbuf, BitVec.ofNat 32 RESET_ADDRESS, 0⟩ (loaded secs)).bind fun p =>
          let addr := p.startaddr.toNat
          if addr < SPIFLASH then .error .overrun
          else if SPIFLASH + FLASHLEN < addr + p.codelen.toNat then .error .busErr
          else
            (flashWrite u.exec f addr p.codelen.toNat fun i => p.fbuf (addr - SPIFLASH + i)).bind
              fun r => if r.1 then .ok r.2 else .error .failure

def zipload (u : Unset) (f : Flash) (i : Files) : Except Exit Flash :=
  if i.bitfile.isNone && (i.execfile.isNone || i.altbitfile.isSome) then .error .failure
  else
    (loadBit u f i.bitfile).bind fun (fbuf, bitsz, f₁) =>
      (loadAlt u i.lastArg fbuf bitsz f₁ i.altbitfile).bind fun (fbuf', f₂) =>
        loadExec u fbuf' f₂ i.execfile

end S6Soc.Zipload
