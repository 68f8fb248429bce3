import Mathlib
import S6Soc.NorFlash

/-! The host's flash driver, `FLASHDRVR::write` and what it calls, over a NOR flash. -/
namespace S6Soc.FlashDrvr
open NorFlash

abbrev Byte := BitVec 8
abbrev Word := BitVec 32

/-- The flash by the byte, as the bus addresses it. -/
abbrev Flash := Memory ℕ 8

@[irreducible] def SPIFLASH : ℕ := 0x1000000
@[irreducible] def FLASHLEN : ℕ := 0x1000000
@[irreducible] def PGLENB : ℕ := 256
def SZPAGEW : ℕ := 64
def NPAGES : ℕ := 256
@[irreducible] def SECTORSZB : ℕ := NPAGES * 256
def SECTOROF (a : ℕ) : ℕ := a / SECTORSZB * SECTORSZB
def PAGEOF (a : ℕ) : ℕ := a / PGLENB * PGLENB

/-- A call that does not return: an exception of the bus, or an assertion. -/
inductive Stop
  | busErr (addr : ℕ)
  | assertion

def buildword (p : ℕ → Byte) : Word := p 0 ++ p 1 ++ p 2 ++ p 3

/-- The byte `k` of a word, the most significant first. -/
def byteOf (v : Word) (k : ℕ) : Byte := v.extractLsb' (24 - 8 * k) 8

def byteswap (v : Word) : Word :=
  v.extractLsb' 0 8 ++ v.extractLsb' 8 8 ++ v.extractLsb' 16 8 ++ v.extractLsb' 24 8

def wordAt (f : Flash) (a : ℕ) : Word := buildword fun k => f (a + k)

def readi (f : Flash) (a len : ℕ) : Except Stop (List Word) :=
  if len = 0 then .ok []
  else if a % 4 ≠ 0 then .error (.busErr a)
  else .ok ((List.range len).map fun i => wordAt f (a + 4 * i))

/-- The address is encoded, and its alignment looked at, before the first word. -/
def writei (f : Flash) (a : ℕ) (buf : List Word) : Except Stop Flash :=
  if a % 4 ≠ 0 then .error (.busErr a)
  else .ok (program f (fun x => a ≤ x ∧ x < a + 4 * buf.length) fun x =>
    byteOf (buf.getD ((x - a) / 4) 0) ((x - a) % 4))

/-- The pages looked at are a quarter of a page apart. -/
def eraseSector (f : Flash) (sector : ℕ) (verifyErase : Bool) : Bool × Flash :=
  let f' := erase f fun x => SECTOROF x = sector
  (!verifyErase || (List.range NPAGES).all fun i =>
      (List.range SZPAGEW).all fun j => wordAt f' (sector + i * SZPAGEW + 4 * j) == 0xffffffff, f')

/-- The words of a page, the last one going beyond it where the length is no whole number
of words. -/
def bswapd (len : ℕ) (data : ℕ → Byte) : List Word :=
  (List.range ((len + 3) / 4)).map fun i => buildword fun k => data (4 * i + k)

/-- A page of ones is not written. -/
def burn (f : Flash) (addr len : ℕ) (data : ℕ → Byte) : Except Stop Flash :=
  if (bswapd len data).all (· == 0xffffffff) then .ok f
  else writei f addr ((bswapd len data).take (len / 4))

def verified (f : Flash) (addr len : ℕ) (data : ℕ → Byte) (verifyWrite : Bool) :
    Except Stop Bool :=
  if verifyWrite then
    (readi f addr (len / 4)).map fun buf => buf == (bswapd len data).take (len / 4)
  else .ok true

def pageProgram (f : Flash) (addr len : ℕ) (data : ℕ → Byte) (verifyWrite : Bool) :
    Except Stop (Bool × Flash) :=
  if len = 0 ∨ PGLENB < len ∨ PAGEOF addr ≠ PAGEOF (addr + len - 1) then .error .assertion
  else do
    let f' ← burn f addr len data
    let same ← verified f' addr len data verifyWrite
    .ok (same, f')

/-- What the memory holds that `write` reads but has not set: the inner `len`, which is
initialised from itself, and the end of `sbuf`. -/
structure Garbage where
  len : ℕ → Word
  sbuf : ℕ → ℕ → Byte

/-- The length of the page from `p` on, in unsigned arithmetic. -/
def Garbage.clipped (g : Garbage) (addr p : ℕ) : ℕ :=
  let len : Word := BitVec.ofNat 32 addr + g.len p - BitVec.ofNat 32 p
  if PAGEOF (BitVec.ofNat 32 p + len - 1).toNat ≠ PAGEOF p then PAGEOF (p + PGLENB) - p
  else len.toNat

theorem lt_nextPage (p : ℕ) : p < PAGEOF (p + PGLENB) := by
  simp only [PAGEOF, PGLENB]
  omega

/-- The walk through the pages of the sector `s`. -/
def pages (g : Garbage) (addr len : ℕ) (data : ℕ → Byte) (verify : Bool) (s p : ℕ) (f : Flash) :
    Except Stop (Bool × Flash) :=
  if p < s + SECTORSZB ∧ p < addr + len then
    match pageProgram f p (g.clipped addr p) (fun k => data (p - addr + k)) verify with
    | .error e => .error e
    | .ok (false, f') => .ok (false, f')
    | .ok (true, f') => pages g addr len data verify s (PAGEOF (p + PGLENB)) f'
  else .ok (true, f)
termination_by addr + len - p
decreasing_by
  have := lt_nextPage p
  omega

/-- The comparison, `n` bytes before its end: whether to erase, and `newv`. -/
def compare (sbuf dp : ℕ → Byte) (base : ℕ) : ℕ → ℕ → ℕ → Bool × ℕ
  | 0, _, newv => (false, newv)
  | n + 1, i, newv =>
    if sbuf i &&& dp i ≠ dp i then (true, i / 4 * 4 + base)
    else compare sbuf dp base n (i + 1)
      (if sbuf i ≠ dp i ∧ newv = 0 then i / 4 * 4 + base else newv)

def baseOf (addr s : ℕ) : ℕ := if s < addr then addr else s

def endOf (addr len s : ℕ) : ℕ := if s + SECTORSZB < addr + len then s + SECTORSZB else addr + len

def lnOf (addr len s : ℕ) : ℕ := endOf addr len s - baseOf addr s

/-- `sbuf` after the words in it have been swapped to the order of the host. -/
def sbufOf (g : Garbage) (s : ℕ) (ws : List Word) (i : ℕ) : Byte :=
  if i < 4 * ws.length then (byteswap (ws.getD (i / 4) 0)).extractLsb' (8 * (i % 4)) 8
  else g.sbuf s i

/-- One round of the loop over the sectors. -/
def sector (g : Garbage) (addr len : ℕ) (data : ℕ → Byte) (verify : Bool) (s : ℕ) (f : Flash) :
    Except Stop (Bool × Flash) :=
  match readi f (baseOf addr s) (lnOf addr len s / 4) with
  | .error e => .error e
  | .ok ws =>
    let found := compare (sbufOf g s ws) (fun i => data (baseOf addr s - addr + i)) (baseOf addr s)
      (lnOf addr len s) 0 0
    if found.2 = 0 then .ok (true, f)
    else if found.1 then
      let erased := eraseSector f s verify
      if erased.1 then pages g addr len data verify s (baseOf addr s) erased.2
      else .ok (false, erased.2)
    else pages g addr len data verify s found.2 f

def sectors (g : Garbage) (addr len : ℕ) (data : ℕ → Byte) (verify : Bool) (s : ℕ) (f : Flash) :
    Except Stop (Bool × Flash) :=
  if s < SECTOROF (addr + len + SECTORSZB - 1) then
    match sector g addr len data verify s f with
    | .error e => .error e
    | .ok (false, f') => .ok (false, f')
    | .ok (true, f') => sectors g addr len data verify (s + SECTORSZB) f'
  else .ok (true, f)
termination_by SECTOROF (addr + len + SECTORSZB - 1) - s
decreasing_by
  simp only [SECTORSZB, NPAGES] at *
  omega

def write (g : Garbage) (f : Flash) (addr len : ℕ) (data : ℕ → Byte) (verify : Bool) :
    Except Stop (Bool × Flash) :=
  sectors g addr len data verify (SECTOROF addr) f

variable {f f' : Flash} {p n a len addr s x : ℕ} {d data : ℕ → Byte} {verify b : Bool} {g : Garbage}

theorem byteOf_buildword (q : ℕ → Byte) {k : ℕ} (hk : k < 4) : byteOf (buildword q) k = q k := by
  apply BitVec.eq_of_getLsbD_eq
  intro j hj
  simp only [byteOf, buildword, BitVec.getLsbD_extractLsb', BitVec.getLsbD_append, hj, decide_true,
    Bool.true_and]
  have hk : k = 0 ∨ k = 1 ∨ k = 2 ∨ k = 3 := by omega
  rcases hk with rfl | rfl | rfl | rfl
  · rw [if_neg (by omega), if_neg (by omega), if_neg (by omega)]
    congr 1
    omega
  · rw [if_neg (by omega), if_neg (by omega), if_pos (by omega)]
    congr 1
    omega
  · rw [if_neg (by omega), if_pos (by omega)]
    congr 1
    omega
  · rw [if_pos (by omega)]
    congr 1
    omega

theorem extract_byteswap (v : Word) {k : ℕ} (hk : k < 4) :
    (byteswap v).extractLsb' (8 * k) 8 = byteOf v k := by
  apply BitVec.eq_of_getLsbD_eq
  intro j hj
  simp only [byteOf, byteswap, BitVec.getLsbD_extractLsb', BitVec.getLsbD_append, hj, decide_true,
    Bool.true_and]
  have hk : k = 0 ∨ k = 1 ∨ k = 2 ∨ k = 3 := by omega
  rcases hk with rfl | rfl | rfl | rfl
  · rw [if_pos (by omega)]
    simp [show j < 8 from hj]
  · rw [if_neg (by omega), if_pos (by omega)]
    simp
    omega
  · rw [if_neg (by omega), if_neg (by omega), if_pos (by omega)]
    simp [show 8 * 2 + j - 8 - 8 < 8 by omega]
    congr 1
    omega
  · rw [if_neg (by omega), if_neg (by omega), if_neg (by omega)]
    simp [show 8 * 3 + j - 8 - 8 - 8 < 8 by omega]
    congr 1
    omega

theorem byteOf_words {m i : ℕ} (hi : i / 4 < m) :
    byteOf (((List.range m).map fun j => buildword fun k => d (4 * j + k)).getD (i / 4) 0)
      (i % 4) = d i := by
  rw [List.getD_eq_getElem?_getD, List.getElem?_map, List.getElem?_range hi, Option.map_some,
    Option.getD_some, byteOf_buildword _ (by omega)]
  congr 1
  omega

theorem byteOf_ones {k : ℕ} (hk : k < 4) : byteOf 0xffffffff k = BitVec.allOnes 8 := by
  have hk : k = 0 ∨ k = 1 ∨ k = 2 ∨ k = 3 := by omega
  rcases hk with rfl | rfl | rfl | rfl <;> rfl

theorem readi_cases {ws : List Word} {m : ℕ} (h : readi f a m = .ok ws) :
    (m = 0 ∨ a % 4 = 0) ∧ ws = (List.range m).map fun i => wordAt f (a + 4 * i) := by
  unfold readi at h
  split_ifs at h with hm hal
  · cases h
    exact ⟨Or.inl hm, by rw [hm]; rfl⟩
  · cases h
    exact ⟨Or.inr (by omega), rfl⟩

theorem readi_ok {m : ℕ} (h : m = 0 ∨ a % 4 = 0) :
    readi f a m = .ok ((List.range m).map fun i => wordAt f (a + 4 * i)) := by
  unfold readi
  split_ifs with hm hal
  · rw [hm]
    rfl
  · omega
  · rfl

/-- The words that are written and compared. -/
theorem take_bswapd (n : ℕ) (d : ℕ → Byte) : (bswapd n d).take (n / 4) =
    (List.range (n / 4)).map fun i => buildword fun k => d (4 * i + k) := by
  rw [bswapd, ← List.map_take, List.take_range, Nat.min_eq_left (by omega)]

theorem writei_words {m : ℕ} (hp : p % 4 = 0) :
    writei f p ((List.range m).map fun i => buildword fun k => d (4 * i + k)) =
      .ok (program f (fun x => p ≤ x ∧ x < p + 4 * m) fun x => d (x - p)) := by
  have h₀ : ¬ p % 4 ≠ 0 := by omega
  rw [writei, if_neg h₀, List.length_map, List.length_range]
  congr 1
  funext x
  unfold program
  split_ifs with hx
  · exact congrArg (f x &&& ·) (byteOf_words (by omega))
  · rfl

theorem burn_ok (h : burn f p n d = .ok f') :
    Programmed (fun x => d (x - p)) (fun x => p ≤ x ∧ x < p + n) f f' := by
  unfold burn at h
  split_ifs at h with hones
  · cases h
    exact .refl _
  · rw [take_bswapd] at h
    by_cases hp : p % 4 = 0
    · rw [writei_words hp] at h
      cases h
      exact programmed_program.mono fun x hx => ⟨hx.1, by omega⟩
    · rw [writei, if_pos hp] at h
      cases h

theorem bind_ok {ε α β : Type} {m : Except ε α} {k : α → Except ε β} {r : β}
    (h : m >>= k = .ok r) : ∃ v, m = .ok v ∧ k v = .ok r := by
  cases m with
  | error e => cases h
  | ok v => exact ⟨v, rfl, h⟩

theorem pageProgram_cases (h : pageProgram f p n d verify = .ok (b, f')) :
    n ≠ 0 ∧ n ≤ PGLENB ∧ PAGEOF p = PAGEOF (p + n - 1) ∧ burn f p n d = .ok f' := by
  unfold pageProgram at h
  by_cases ha : n = 0 ∨ PGLENB < n ∨ PAGEOF p ≠ PAGEOF (p + n - 1)
  · rw [if_pos ha] at h
    cases h
  · rw [if_neg ha] at h
    obtain ⟨f₁, hb, h⟩ := bind_ok h
    obtain ⟨same, -, h⟩ := bind_ok h
    cases h
    simp only [not_or, not_lt, not_not] at ha
    exact ⟨ha.1, ha.2.1, ha.2.2, hb⟩

theorem bswapd_ones (h : (bswapd n d).all (· == 0xffffffff) = true) (hx : x / 4 < (n + 3) / 4) :
    d x = BitVec.allOnes 8 := by
  have hw : buildword (fun k => d (4 * (x / 4) + k)) = 0xffffffff := by
    have hm : buildword (fun k => d (4 * (x / 4) + k)) ∈ bswapd n d :=
      List.mem_map.mpr ⟨x / 4, List.mem_range.mpr hx, rfl⟩
    simpa using List.all_eq_true.mp h _ hm
  have hb := byteOf_buildword (fun k => d (4 * (x / 4) + k)) (k := x % 4) (by omega)
  rw [hw, byteOf_ones (by omega), show 4 * (x / 4) + x % 4 = x by omega] at hb
  exact hb.symm

/-- From an address that is no word's, nothing is written but a word of ones. -/
theorem pageProgram_unaligned (hp : p % 4 ≠ 0) (h : pageProgram f p n d verify = .ok (b, f'))
    (hx : x < 4) : d x = BitVec.allOnes 8 := by
  obtain ⟨hn, -, -, hb⟩ := pageProgram_cases h
  unfold burn at hb
  by_cases hones : (bswapd n d).all (· == 0xffffffff) = true
  · exact bswapd_ones hones (by omega)
  · rw [if_neg hones, writei, if_pos hp] at hb
    cases hb

/-- A single byte is no word: nothing is written, and nothing compared. -/
theorem pageProgram_one (hp : p % 4 = 0) : pageProgram f p 1 d verify = .ok (true, f) := by
  have hburn : burn f p 1 d = .ok f := by
    unfold burn
    split_ifs with hones
    · rfl
    · rw [take_bswapd, writei_words hp]
      congr 1
      funext x
      exact program_frame (by omega)
  have hsame : verified f p 1 d verify = .ok true := by
    unfold verified
    split_ifs
    · rw [take_bswapd]
      rfl
    · rfl
  have ha : ¬ (1 = 0 ∨ PGLENB < 1 ∨ PAGEOF p ≠ PAGEOF (p + 1 - 1)) := by
    simp [PGLENB]
  rw [pageProgram, if_neg ha, hburn]
  change (do let same ← verified f p 1 d verify; .ok (same, f)) = _
  rw [hsame]
  rfl

/-- Where the flash can take them, the whole words of a page go out and are found there. -/
theorem pageProgram_words (hp : p % 4 = 0) (h₀ : n ≠ 0) (hl : n ≤ PGLENB)
    (hpage : PAGEOF p = PAGEOF (p + n - 1))
    (hf : Programmable f (fun x => d (x - p)) fun x => p ≤ x ∧ x < p + 4 * (n / 4)) :
    pageProgram f p n d verify =
      .ok (true, program f (fun x => p ≤ x ∧ x < p + 4 * (n / 4)) fun x => d (x - p)) := by
  have hburn : burn f p n d =
      .ok (program f (fun x => p ≤ x ∧ x < p + 4 * (n / 4)) fun x => d (x - p)) := by
    unfold burn
    split_ifs with hones
    · congr 1
      funext x
      by_cases hx : p ≤ x ∧ x < p + 4 * (n / 4)
      · have hd := bswapd_ones hones (x := x - p) (by omega)
        rw [program, if_pos hx, hd, BitVec.and_allOnes]
      · exact (if_neg hx).symm
    · rw [take_bswapd, writei_words hp]
  have hsame : verified (program f (fun x => p ≤ x ∧ x < p + 4 * (n / 4)) fun x => d (x - p)) p n d
      verify = .ok true := by
    unfold verified
    split_ifs
    · rw [take_bswapd, readi_ok (Or.inr hp)]
      simp only [Except.map, Except.ok.injEq, beq_iff_eq, List.map_inj_left, List.mem_range]
      intro i hi
      have hbyte (k : ℕ) (hk : k < 4) :
          program f (fun x => p ≤ x ∧ x < p + 4 * (n / 4)) (fun x => d (x - p)) (p + 4 * i + k) =
            d (4 * i + k) := by
        rw [program_eq hf ⟨by omega, by omega⟩]
        congr 1
        omega
      simp only [wordAt, buildword]
      rw [hbyte 0 (by decide), hbyte 1 (by decide), hbyte 2 (by decide), hbyte 3 (by decide)]
    · rfl
  rw [pageProgram, if_neg (by simp only [not_or, not_lt, not_not]; exact ⟨h₀, hl, hpage⟩), hburn]
  change (do let same ← verified _ p n d verify; .ok (same, _)) = _
  rw [hsame]
  rfl

theorem pages_cases (h : pages g addr len data verify s p f = .ok (b, f')) (ha : addr ≤ p)
    (hs : s % SECTORSZB = 0) (hp : s ≤ p) :
    Programmed (fun x => data (x - addr)) (fun x => p ≤ x ∧ x < s + SECTORSZB) f f' := by
  have hpage {n : ℕ} {f f' : Flash} {b : Bool} {p : ℕ} (ha : addr ≤ p) (hp : s ≤ p)
      (hlt : p < s + SECTORSZB)
      (h : pageProgram f p n (fun k => data (p - addr + k)) verify = .ok (b, f')) :
      Programmed (fun x => data (x - addr)) (fun x => p ≤ x ∧ x < s + SECTORSZB) f f' := by
    obtain ⟨h₀, hl, hpage, hb⟩ := pageProgram_cases h
    refine ((burn_ok hb).congr fun x hx => ?_).mono fun x hx => ⟨hx.1, ?_⟩
    · congr 1
      omega
    · simp only [PAGEOF, PGLENB, SECTORSZB, NPAGES] at *
      omega
  induction hk : addr + len - p using Nat.strong_induction_on generalizing p f with
  | _ k ih =>
    rw [pages] at h
    split_ifs at h with hc
    · cases hq : pageProgram f p (g.clipped addr p) (fun k => data (p - addr + k)) verify with
      | error e => rw [hq] at h; cases h
      | ok r =>
        obtain ⟨_ | _, f₁⟩ := r
        · rw [hq] at h
          cases h
          exact hpage ha hp hc.1 hq
        · rw [hq] at h
          have hnext := lt_nextPage p
          have hrest := ih _ (by omega) h (by omega) (by omega) rfl
          exact (hpage ha hp hc.1 hq).trans (hrest.mono fun x hx => ⟨by omega, hx.2⟩)
    · cases h
      exact .refl _

/-- The inner `len` comes out as one byte, whatever the page. -/
def idle (addr p : ℕ) : Word := BitVec.ofNat 32 p + 1 - BitVec.ofNat 32 addr

theorem clipped_idle (hg : g.len p = idle addr p) (hp : p < 2 ^ 32) : g.clipped addr p = 1 := by
  have hlen : BitVec.ofNat 32 addr + idle addr p - BitVec.ofNat 32 p = 1 := by
    rw [idle, BitVec.add_comm (BitVec.ofNat 32 addr), BitVec.sub_add_cancel, BitVec.add_comm,
      BitVec.add_sub_cancel]
  have hpage : (BitVec.ofNat 32 p + 1 - 1).toNat = p := by
    rw [BitVec.add_sub_cancel, BitVec.toNat_ofNat, Nat.mod_eq_of_lt hp]
  simp only [Garbage.clipped, hg, hlen, hpage]
  rw [if_neg (not_not.mpr rfl)]
  rfl

theorem pages_idle (hg : ∀ p, g.len p = idle addr p) (hhi : addr + len ≤ 2 ^ 32) (hp : p % 4 = 0) :
    pages g addr len data verify s p f = .ok (true, f) := by
  induction hk : addr + len - p using Nat.strong_induction_on generalizing p with
  | _ k ih =>
    rw [pages]
    split_ifs with hc
    · rw [clipped_idle (hg p) (by omega), pageProgram_one hp]
      have hnext := lt_nextPage p
      refine ih _ (by omega) ?_ rfl
      simp only [PAGEOF, PGLENB]
      omega
    · rfl

/-- What is left of the range at `p`, or of the page. -/
def left (addr len p : ℕ) : ℕ :=
  (if PAGEOF (p + PGLENB) < addr + len then PAGEOF (p + PGLENB) else addr + len) - p

/-- The length that is meant. -/
theorem clipped_intended (hg : g.len p = BitVec.ofNat 32 len) (hp : p < addr + len)
    (hhi : addr + len < 2 ^ 32) : g.clipped addr p = left addr len p := by
  have hlen : (BitVec.ofNat 32 addr + BitVec.ofNat 32 len - BitVec.ofNat 32 p).toNat =
      addr + len - p := by
    rw [← BitVec.ofNat_add, BitVec.toNat_sub_of_le]
    · rw [BitVec.toNat_ofNat, BitVec.toNat_ofNat]
      omega
    · rw [BitVec.le_def, BitVec.toNat_ofNat, BitVec.toNat_ofNat]
      omega
  have hend : (BitVec.ofNat 32 p + (BitVec.ofNat 32 addr + BitVec.ofNat 32 len -
      BitVec.ofNat 32 p) - 1).toNat = addr + len - 1 := by
    rw [BitVec.add_comm (BitVec.ofNat 32 p), BitVec.sub_add_cancel, ← BitVec.ofNat_add,
      BitVec.toNat_sub_of_le]
    · rw [BitVec.toNat_ofNat, Nat.mod_eq_of_lt hhi]
      rfl
    · rw [BitVec.le_def, BitVec.toNat_ofNat, Nat.mod_eq_of_lt hhi]
      simp
      omega
  simp only [Garbage.clipped, hg, hend, hlen, left, PAGEOF, PGLENB]
  split_ifs <;> omega

theorem endOf_bounds (addr len : ℕ) (hs : s % SECTORSZB = 0) : endOf addr len s ≤ addr + len ∧
    endOf addr len s ≤ s + SECTORSZB ∧
    (endOf addr len s = addr + len ∨ endOf addr len s = s + SECTORSZB) ∧
    (s + SECTORSZB) % 4 = 0 := by
  simp only [endOf, SECTORSZB, NPAGES] at *
  split_ifs <;> omega

/-- Where each page gets the length that is meant, the whole words from `p` on go into the
flash. -/
theorem pages_intended (hg : ∀ q, p ≤ q → (q = p ∨ q % PGLENB = 0) → q < s + SECTORSZB →
      q < addr + len → g.clipped addr q = left addr len q)
    (hs : s % SECTORSZB = 0) (h4 : p % 4 = 0) (ha : addr ≤ p) (hp : s ≤ p)
    (hf : Programmable f (fun x => data (x - addr))
      fun x => p ≤ x ∧ x < endOf addr len s / 4 * 4) :
    pages g addr len data verify s p f =
      .ok (true, program f (fun x => p ≤ x ∧ x < endOf addr len s / 4 * 4)
        fun x => data (x - addr)) := by
  have hend := endOf_bounds addr len hs
  induction hk : addr + len - p using Nat.strong_induction_on generalizing p f with
  | _ k ih =>
    rw [pages]
    split_ifs with hc
    · have hnext := lt_nextPage p
      have hpage : PAGEOF (p + PGLENB) ≤ s + SECTORSZB ∧ PAGEOF (p + PGLENB) % 4 = 0 ∧
          PAGEOF (p + PGLENB) ≤ p + PGLENB ∧ PAGEOF (p + PGLENB) % PGLENB = 0 := by
        simp only [PAGEOF, PGLENB, SECTORSZB, NPAGES] at *
        omega
      let n := left addr len p
      have hn : p + n = PAGEOF (p + PGLENB) ∧ PAGEOF (p + PGLENB) < addr + len ∨
          p + n = addr + len ∧ addr + len ≤ PAGEOF (p + PGLENB) := by
        simp only [n, left]
        split_ifs <;> omega
      have hmean (x : ℕ) (hx : p ≤ x) : data (p - addr + (x - p)) = data (x - addr) := by
        congr 1
        omega
      rw [hg p (le_refl p) (Or.inl rfl) hc.1 hc.2, pageProgram_words (n := n) h4 (by omega)
        (by omega) (by
        simp only [PAGEOF, PGLENB] at *
        omega) (fun x hx => by
        have hd := hf x ⟨hx.1, by omega⟩
        simp only [hmean x hx.1]
        exact hd)]
      change pages g addr len data verify s (PAGEOF (p + PGLENB)) _ = _
      rw [ih _ (by omega) (fun q hq hq' => hg q (by omega) (Or.inr (by
        rcases hq' with rfl | hq'
        · exact hpage.2.2.2
        · exact hq'))) hpage.2.1 (by omega) (by omega) (fun x hx => by
        rw [program_frame (by omega)]
        exact hf x ⟨by omega, hx.2⟩) rfl]
      congr 2
      funext x
      have hend : (p ≤ x ∧ x < endOf addr len s / 4 * 4) ↔
          (p ≤ x ∧ x < p + 4 * (n / 4)) ∨
            (PAGEOF (p + PGLENB) ≤ x ∧ x < endOf addr len s / 4 * 4) := by omega
      simp only [program]
      by_cases h₁ : p ≤ x ∧ x < p + 4 * (n / 4)
      · have h₂ : ¬ (PAGEOF (p + PGLENB) ≤ x ∧ x < endOf addr len s / 4 * 4) := by omega
        rw [if_neg h₂, if_pos h₁, if_pos (hend.mpr (Or.inl h₁)), hmean x h₁.1]
      · by_cases h₂ : PAGEOF (p + PGLENB) ≤ x ∧ x < endOf addr len s / 4 * 4
        · rw [if_pos h₂, if_neg h₁, if_pos (hend.mpr (Or.inr h₂))]
        · rw [if_neg h₂, if_neg h₁, if_neg fun h => (hend.mp h).elim h₁ h₂]
    · congr 2
      funext x
      exact (if_neg (by omega)).symm

/-- Where the flash can take whatever the rest of the sector is to have, no page is found to
differ, of whatever length. -/
theorem pages_true (h : pages g addr len data verify s p f = .ok (b, f')) (ha : addr ≤ p)
    (hs : s % SECTORSZB = 0) (h4 : p % 4 = 0) (hp : s ≤ p)
    (hf : Programmable f (fun x => data (x - addr)) fun x => p ≤ x ∧ x < s + SECTORSZB) :
    b = true := by
  induction hk : addr + len - p using Nat.strong_induction_on generalizing p f with
  | _ k ih =>
    rw [pages] at h
    split_ifs at h with hc
    · cases hq : pageProgram f p (g.clipped addr p) (fun k => data (p - addr + k)) verify with
      | error e => rw [hq] at h; cases h
      | ok r =>
        obtain ⟨h₀, hl, hpage, -⟩ := pageProgram_cases hq
        have hnext := lt_nextPage p
        have hlast : p + g.clipped addr p ≤ PAGEOF (p + PGLENB) ∧
            PAGEOF (p + PGLENB) ≤ s + SECTORSZB ∧ PAGEOF (p + PGLENB) % 4 = 0 := by
          simp only [PAGEOF, PGLENB, SECTORSZB, NPAGES] at *
          omega
        have hmean (x : ℕ) (hx : p ≤ x) : data (p - addr + (x - p)) = data (x - addr) := by
          congr 1
          omega
        rw [pageProgram_words h4 h₀ hl hpage fun x hx => by
          simp only [hmean x hx.1]
          exact hf x ⟨hx.1, by omega⟩] at h
        refine ih _ (by omega) h (by omega) hlast.2.2 (by omega) (fun x hx => ?_) rfl
        rw [program_frame (by omega)]
        exact hf x ⟨by omega, hx.2⟩
    · cases h
      rfl

variable {sbuf dp : ℕ → Byte} {base i newv : ℕ}

theorem compare_erase (hb : base ≠ 0)
    (h : ∃ j, i ≤ j ∧ j < i + n ∧ sbuf j &&& dp j ≠ dp j) :
    (compare sbuf dp base n i newv).1 = true ∧ (compare sbuf dp base n i newv).2 ≠ 0 := by
  induction n generalizing i newv with
  | zero =>
    obtain ⟨j, h₁, h₂, -⟩ := h
    omega
  | succ n ih =>
    obtain ⟨j, h₁, h₂, hj⟩ := h
    rw [compare]
    by_cases hc : sbuf i &&& dp i ≠ dp i
    · rw [if_pos hc]
      exact ⟨rfl, by omega⟩
    · rw [if_neg hc]
      have hne : j ≠ i := by
        rintro rfl
        exact hc hj
      exact ih ⟨j, by omega, by omega, hj⟩

theorem compare_kept (h : ∀ j, i ≤ j → j < i + n → sbuf j &&& dp j = dp j) (hv : newv ≠ 0) :
    compare sbuf dp base n i newv = (false, newv) := by
  induction n generalizing i with
  | zero => rfl
  | succ n ih =>
    rw [compare, if_neg (not_not.mpr (h i (le_refl i) (by omega))), if_neg (by tauto)]
    exact ih fun j h₁ h₂ => h j (by omega) (by omega)

theorem compare_same (h : ∀ j, i ≤ j → j < i + n → sbuf j = dp j) :
    compare sbuf dp base n i 0 = (false, 0) := by
  induction n generalizing i with
  | zero => rfl
  | succ n ih =>
    have hi := h i (le_refl i) (by omega)
    rw [compare, if_neg (by rw [hi, BitVec.and_self]; tauto), if_neg (by tauto)]
    exact ih fun j h₁ h₂ => h j (by omega) (by omega)

/-- The first difference, where no byte asks for an erase. -/
theorem compare_found (hb : base ≠ 0) (h : ∀ j, i ≤ j → j < i + n → sbuf j &&& dp j = dp j)
    (hd : ∃ j, i ≤ j ∧ j < i + n ∧ sbuf j ≠ dp j) :
    ∃ k, i ≤ k ∧ k < i + n ∧ compare sbuf dp base n i 0 = (false, k / 4 * 4 + base) ∧
      sbuf k ≠ dp k ∧ ∀ j, i ≤ j → j < k → sbuf j = dp j := by
  induction n generalizing i with
  | zero =>
    obtain ⟨j, h₁, h₂, -⟩ := hd
    omega
  | succ n ih =>
    rw [compare, if_neg (not_not.mpr (h i (le_refl i) (by omega)))]
    have hrest (j : ℕ) (h₁ : i + 1 ≤ j) (h₂ : j < i + 1 + n) := h j (by omega) (by omega)
    by_cases hi : sbuf i = dp i
    · rw [if_neg (by tauto)]
      obtain ⟨k, h₁, h₂, hk, hne, hbefore⟩ := ih hrest (by
        obtain ⟨j, h₁, h₂, hj⟩ := hd
        have hne : j ≠ i := by
          rintro rfl
          exact hj hi
        exact ⟨j, by omega, by omega, hj⟩)
      refine ⟨k, by omega, by omega, hk, hne, fun j h₁ h₂ => ?_⟩
      by_cases hj : j = i
      · rw [hj, hi]
      · exact hbefore j (by omega) h₂
    · rw [if_pos ⟨hi, rfl⟩, compare_kept hrest (by omega)]
      exact ⟨i, le_refl i, by omega, rfl, hi, fun j h₁ h₂ => by omega⟩

end S6Soc.FlashDrvr
