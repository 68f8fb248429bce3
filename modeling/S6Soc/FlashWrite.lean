import S6Soc.FlashDrvr

/-! What a flash write that reports success has done: sector by sector, with any contents
of the memory that `write` reads unset, and with those that are meant. -/
namespace S6Soc.FlashDrvr
open NorFlash

variable {f f' : Flash} {a len addr s x p i : ℕ} {data : ℕ → Byte} {verify b : Bool} {g : Garbage}

/-- The sectors the loop goes through. -/
structure Visited (addr len s : ℕ) : Prop where
  whole : s % SECTORSZB = 0
  first : SECTOROF addr ≤ s
  last : s < SECTOROF (addr + len + SECTORSZB - 1)

theorem Visited.bounds (h : Visited addr len s) :
    addr ≤ baseOf addr s ∧ s ≤ baseOf addr s ∧ baseOf addr s < s + SECTORSZB ∧
      baseOf addr s ≤ endOf addr len s ∧ endOf addr len s ≤ addr + len ∧
      endOf addr len s ≤ s + SECTORSZB ∧ (s < addr ∨ baseOf addr s % 4 = 0) := by
  obtain ⟨h₁, h₂, h₃⟩ := h
  simp only [SECTOROF, SECTORSZB, NPAGES, baseOf, endOf] at *
  split_ifs <;> omega

/-- The part of the data that goes into the sector. -/
def Part (addr len s x : ℕ) : Prop := baseOf addr s ≤ x ∧ x < endOf addr len s

/-- What is read back of it, whole words only. -/
def Words (addr len s x : ℕ) : Prop :=
  baseOf addr s ≤ x ∧ x < baseOf addr s + 4 * (lnOf addr len s / 4)

def Same (f : Flash) (addr len : ℕ) (data : ℕ → Byte) (s : ℕ) : Prop :=
  ∀ x, Part addr len s x → f x = data (x - addr)

def Blank (addr len : ℕ) (data : ℕ → Byte) (s : ℕ) : Prop :=
  ∀ x, Part addr len s x → data (x - addr) = BitVec.allOnes 8

/-- The sector holds the data and is left alone, or an erase is all it needs. -/
def Kept (f : Flash) (addr len : ℕ) (data : ℕ → Byte) (s : ℕ) : Prop :=
  (Same f addr len data s ∧ (baseOf addr s % 4 ≠ 0 ∨ Blank addr len data s ∨
    ∀ x, Part addr len s x → ¬ Words addr len s x → data (x - addr) = 0)) ∨
  (Blank addr len data s ∧ ∃ x, Words addr len s x ∧ f x ≠ BitVec.allOnes 8)

theorem words_part (h : Words addr len s x) : Part addr len s x := by
  simp only [Words, Part, lnOf] at *
  omega

/-- `sbuf` holds what the flash does, as far as whole words go. -/
theorem sbufOf_words {m : ℕ} (hi : i < 4 * m) :
    sbufOf g s ((List.range m).map fun i => wordAt f (a + 4 * i)) i = f (a + i) := by
  have hm : i / 4 < m := by omega
  rw [sbufOf, List.length_map, List.length_range, if_pos hi, List.getD_eq_getElem?_getD,
    List.getElem?_map, List.getElem?_range hm, Option.map_some, Option.getD_some,
    extract_byteswap _ (by omega), wordAt, byteOf_buildword _ (by omega)]
  congr 1
  omega

theorem sbufOf_rest {m : ℕ} (hi : 4 * m ≤ i) :
    sbufOf g s ((List.range m).map fun i => wordAt f (a + 4 * i)) i = g.sbuf s i := by
  rw [sbufOf, List.length_map, List.length_range, if_neg (by omega)]

/-- Erased, the sector is found so. -/
theorem eraseSector_eq (hs : s % SECTORSZB = 0) :
    eraseSector f s verify = (true, erase f fun x => SECTOROF x = s) := by
  have hone (i j k : ℕ) (hi : i < NPAGES) (hj : j < SZPAGEW) (hk : k < 4) :
      erase f (fun x => SECTOROF x = s) (s + i * SZPAGEW + 4 * j + k) = BitVec.allOnes 8 := by
    refine erase_of ?_
    simp only [SECTOROF, SECTORSZB, NPAGES, SZPAGEW] at *
    omega
  rw [eraseSector]
  simp only [Prod.mk.injEq, and_true, Bool.or_eq_true, List.all_eq_true, List.mem_range]
  refine Or.inr fun i hi j hj => ?_
  rw [wordAt, buildword, hone i j 0 hi hj (by decide), hone i j 1 hi hj (by decide),
    hone i j 2 hi hj (by decide), hone i j 3 hi hj (by decide)]
  rfl

/-- `sbuf`, where the reading went through. -/
def seen (g : Garbage) (f : Flash) (addr len s : ℕ) : ℕ → Byte :=
  sbufOf g s ((List.range (lnOf addr len s / 4)).map fun i => wordAt f (baseOf addr s + 4 * i))

/-- The data the sector is to have, by the byte from where it begins. -/
def wanted (addr : ℕ) (data : ℕ → Byte) (s i : ℕ) : Byte := data (baseOf addr s - addr + i)

/-- The sector's words can be read. -/
def Readable (addr len s : ℕ) : Prop := lnOf addr len s / 4 = 0 ∨ baseOf addr s % 4 = 0

theorem sector_eq (hs : s % SECTORSZB = 0) (hr : Readable addr len s) :
    sector g addr len data verify s f =
      let found := compare (seen g f addr len s) (wanted addr data s) (baseOf addr s)
        (lnOf addr len s) 0 0
      if found.2 = 0 then .ok (true, f)
      else if found.1 then
        pages g addr len data verify s (baseOf addr s) (erase f fun x => SECTOROF x = s)
      else pages g addr len data verify s found.2 f := by
  rw [sector, readi_ok hr]
  simp only [eraseSector_eq hs, if_true]
  rfl

theorem readable_of_sector (h : sector g addr len data verify s f = .ok (b, f')) :
    Readable addr len s := by
  unfold sector at h
  cases hr : readi f (baseOf addr s) (lnOf addr len s / 4) with
  | error e => rw [hr] at h; cases h
  | ok ws => exact (readi_cases hr).1

/-- What can come of a sector. -/
theorem sector_split (g : Garbage) (f : Flash) (data : ℕ → Byte) (verify : Bool)
    (hv : Visited addr len s) (ha : 0 < addr) (hr : Readable addr len s) :
    ((∀ i, i < lnOf addr len s → seen g f addr len s i = wanted addr data s i) ∧
        sector g addr len data verify s f = .ok (true, f)) ∨
      ((∃ i, i < lnOf addr len s ∧
          seen g f addr len s i &&& wanted addr data s i ≠ wanted addr data s i) ∧
        sector g addr len data verify s f =
          pages g addr len data verify s (baseOf addr s) (erase f fun x => SECTOROF x = s)) ∨
      ((∀ i, i < lnOf addr len s →
          seen g f addr len s i &&& wanted addr data s i = wanted addr data s i) ∧
        ∃ k, k < lnOf addr len s ∧ seen g f addr len s k ≠ wanted addr data s k ∧
          (∀ i, i < k → seen g f addr len s i = wanted addr data s i) ∧
          sector g addr len data verify s f =
            pages g addr len data verify s (k / 4 * 4 + baseOf addr s) f) := by
  have hb : baseOf addr s ≠ 0 := by
    have := hv.bounds
    omega
  rw [sector_eq hv.whole hr]
  by_cases herase : ∃ i, 0 ≤ i ∧ i < 0 + lnOf addr len s ∧
      seen g f addr len s i &&& wanted addr data s i ≠ wanted addr data s i
  · obtain ⟨h₁, h₂⟩ : (compare (seen g f addr len s) (wanted addr data s) (baseOf addr s)
          (lnOf addr len s) 0 0).1 = true ∧
        (compare (seen g f addr len s) (wanted addr data s) (baseOf addr s)
          (lnOf addr len s) 0 0).2 ≠ 0 := compare_erase hb herase
    simp only [h₁, h₂, if_false, if_true]
    obtain ⟨i, -, hi, hd⟩ := herase
    exact Or.inr (Or.inl ⟨⟨i, by omega, hd⟩, trivial⟩)
  · have hfits (i : ℕ) (h₁ : 0 ≤ i) (h₂ : i < 0 + lnOf addr len s) :
        seen g f addr len s i &&& wanted addr data s i = wanted addr data s i := by
      by_contra hne
      exact herase ⟨i, h₁, h₂, hne⟩
    by_cases hdiff : ∃ i, 0 ≤ i ∧ i < 0 + lnOf addr len s ∧
        seen g f addr len s i ≠ wanted addr data s i
    · obtain ⟨k, -, hk, hfound, hkd, hbefore⟩ := compare_found hb hfits hdiff
      have hne : k / 4 * 4 + baseOf addr s ≠ 0 := by omega
      simp only [hfound, hne, if_false, Bool.false_eq_true]
      exact Or.inr (Or.inr ⟨fun i hi => hfits i (Nat.zero_le i) (by omega), k, by omega, hkd,
        fun i hi => hbefore i (Nat.zero_le i) hi, rfl⟩)
    · have hsame (i : ℕ) (h₁ : 0 ≤ i) (h₂ : i < 0 + lnOf addr len s) :
          seen g f addr len s i = wanted addr data s i := by
        by_contra hne
        exact hdiff ⟨i, h₁, h₂, hne⟩
      rw [compare_same hsame]
      exact Or.inl ⟨fun i hi => hsame i (Nat.zero_le i) (by omega), rfl⟩

theorem sectorof_eq_iff (hs : s % SECTORSZB = 0) :
    SECTOROF x = s ↔ s ≤ x ∧ x < s + SECTORSZB := by
  simp only [SECTOROF, SECTORSZB, NPAGES] at *
  omega

theorem sector_frame (hv : Visited addr len s) (ha : 0 < addr)
    (h : sector g addr len data verify s f = .ok (b, f'))
    (hx : SECTOROF x ≠ s ∨ lnOf addr len s = 0) : f' x = f x := by
  have hbound := hv.bounds
  rw [Ne, sectorof_eq_iff hv.whole] at hx
  rcases sector_split g f data verify hv ha
    (readable_of_sector h) with ⟨-, he⟩ | ⟨⟨i, hi, -⟩, hp⟩ | ⟨-, k, hk, -, -, hp⟩
  · rw [he] at h
    cases h
    rfl
  · rw [hp] at h
    rw [(pages_cases h (by omega) hv.whole (by omega)).frame (by omega)]
    exact erase_frame (by rw [sectorof_eq_iff hv.whole]; omega)
  · rw [hp] at h
    exact (pages_cases h (by omega) hv.whole (by omega)).frame (by omega)

theorem pages_head (h : pages g addr len data verify s p f = .ok (b, f'))
    (hp : p < s + SECTORSZB ∧ p < addr + len) :
    ∃ n b₁ f₁, pageProgram f p n (fun k => data (p - addr + k)) verify = .ok (b₁, f₁) := by
  rw [pages, if_pos hp] at h
  cases hq : pageProgram f p (g.clipped addr p) (fun k => data (p - addr + k)) verify with
  | error e => rw [hq] at h; cases h
  | ok r => exact ⟨_, r.1, r.2, hq⟩

theorem seen_words (hx : Words addr len s x) :
    seen g f addr len s (x - baseOf addr s) = f x := by
  obtain ⟨h₁, h₂⟩ := hx
  rw [seen, sbufOf_words (by omega)]
  congr 1
  omega

theorem seen_rest {i : ℕ} (hi : ¬ Words addr len s (baseOf addr s + i)) :
    seen g f addr len s i = g.sbuf s i := by
  rw [seen, sbufOf_rest]
  simp only [Words] at hi
  omega

theorem wanted_part (data : ℕ → Byte) (hv : Visited addr len s) (hx : baseOf addr s ≤ x) :
    wanted addr data s (x - baseOf addr s) = data (x - addr) := by
  have := hv.bounds
  rw [wanted]
  congr 1
  omega

theorem part_add (hi : i < lnOf addr len s) : Part addr len s (baseOf addr s + i) := by
  simp only [Part, lnOf] at *
  omega

/-- What an unaligned address lets through is ones. -/
theorem blank_of_unaligned (hv : Visited addr len s) (hu : baseOf addr s % 4 ≠ 0)
    (hr : Readable addr len s) (hne : 0 < lnOf addr len s)
    (h : pages g addr len data verify s (baseOf addr s) f = .ok (b, f')) :
    Blank addr len data s := by
  have hbound := hv.bounds
  rcases hr with hr | hr
  · obtain ⟨n, b₁, f₁, hq⟩ := pages_head h (by simp only [lnOf] at hne; omega)
    intro x hx
    have hd := pageProgram_unaligned hu hq (x := x - baseOf addr s) (by
      simp only [Part, lnOf] at *
      omega)
    exact (wanted_part data hv hx.1).symm.trans hd
  · exact absurd hr hu

theorem Kept.sector (hv : Visited addr len s) (ha : 0 < addr) (hk : Kept f addr len data s)
    (h : sector g addr len data verify s f = .ok (b, f')) : Same f' addr len data s := by
  have hbound := hv.bounds
  have hr := readable_of_sector h
  rcases sector_split g f data verify hv ha hr with
    ⟨hall, he⟩ | ⟨⟨i, hi, hd⟩, hp⟩ | ⟨hfits, k, hk', -, -, hp⟩
  · rw [he] at h
    cases h
    rcases hk with ⟨hs, -⟩ | ⟨hblank, x, hx, hne⟩
    · exact hs
    · have hpart := words_part hx
      have hseen := hall (x - baseOf addr s) (by simp only [Part, lnOf] at *; omega)
      rw [seen_words hx, wanted_part data hv hx.1, hblank x hpart] at hseen
      exact absurd hseen hne
  · rw [hp] at h
    have hblank : Blank addr len data s := by
      rcases hk with ⟨hs, hu | hblank | hzero⟩ | ⟨hblank, -⟩
      · exact blank_of_unaligned hv hu hr (by omega) h
      · exact hblank
      · exfalso
        apply hd
        have hpart := part_add hi
        have hwant := wanted_part data hv hpart.1
        rw [Nat.add_sub_cancel_left] at hwant
        by_cases hw : Words addr len s (baseOf addr s + i)
        · have hseen := seen_words (g := g) (f := f) hw
          rw [Nat.add_sub_cancel_left] at hseen
          rw [hseen, hwant, hs _ hpart, BitVec.and_self]
        · rw [hwant, hzero _ hpart hw]
          exact BitVec.and_zero
      · exact hblank
    intro x hx
    have hprog := pages_cases h (by omega) hv.whole (by omega)
    have hones : erase f (fun x => SECTOROF x = s) x = BitVec.allOnes 8 :=
      erase_of ((sectorof_eq_iff hv.whole).mpr (by simp only [Part] at hx; omega))
    rcases hprog.erased hones with he | he
    · rw [he, hblank x hx]
    · exact he
  · rw [hp] at h
    intro x hx
    have hprog := pages_cases h (by omega) hv.whole (by omega)
    refine hprog.same ?_
    rcases hk with ⟨hs, -⟩ | ⟨hblank, y, hy, hne⟩
    · exact hs x hx
    · have hpart := words_part hy
      have hfit := hfits (y - baseOf addr s) (by simp only [Part, lnOf] at *; omega)
      rw [seen_words hy, wanted_part data hv hy.1, hblank y hpart, BitVec.and_allOnes] at hfit
      exact absurd hfit hne

/-- The inner `len` comes out as one byte, and the end of `sbuf` holds what is wanted there,
but in a sector `wiped`, where it is zero. -/
def passing (addr : ℕ) (data : ℕ → Byte) (wiped : Option ℕ) : Garbage where
  len := idle addr
  sbuf s i := if wiped = some s then 0 else wanted addr data s i

variable {wiped : Option ℕ}

/-- No byte asks for an erase where the words read cannot be a page's. -/
theorem seen_unaligned (f : Flash) (data : ℕ → Byte) (hr : Readable addr len s)
    (hu : baseOf addr s % 4 ≠ 0)
    (hw : wiped ≠ some s) (i : ℕ) :
    seen (passing addr data wiped) f addr len s i = wanted addr data s i := by
  rw [seen_rest]
  · exact if_neg hw
  · rcases hr with hr | hr
    · simp only [Words, hr]
      omega
    · exact absurd hr hu

/-- The sector is erased, or left as it is. -/
theorem sector_passing (f : Flash) (data : ℕ → Byte) (verify : Bool) (hv : Visited addr len s)
    (ha : 0 < addr) (hhi : addr + len ≤ 2 ^ 32)
    (hr : Readable addr len s) (hw : baseOf addr s % 4 ≠ 0 → wiped ≠ some s) :
    ((∃ i, i < lnOf addr len s ∧ seen (passing addr data wiped) f addr len s i &&&
        wanted addr data s i ≠ wanted addr data s i) ∧
      sector (passing addr data wiped) addr len data verify s f =
        .ok (true, erase f fun x => SECTOROF x = s)) ∨
    ((∀ i, i < lnOf addr len s → seen (passing addr data wiped) f addr len s i &&&
        wanted addr data s i = wanted addr data s i) ∧
      sector (passing addr data wiped) addr len data verify s f = .ok (true, f)) := by
  have hidle (p : ℕ) : (passing addr data wiped).len p = idle addr p := rfl
  have hsame (hu : baseOf addr s % 4 ≠ 0) (i : ℕ) :=
    seen_unaligned f data hr hu (hw hu) i
  rcases sector_split (passing addr data wiped) f data verify hv ha hr with
    ⟨hall, he⟩ | ⟨hd, he⟩ | ⟨hfits, k, -, hd, -, he⟩
  · exact Or.inr ⟨fun i hi => by rw [hall i hi, BitVec.and_self], he⟩
  · by_cases hu : baseOf addr s % 4 = 0
    · exact Or.inl ⟨hd, he.trans (pages_idle hidle hhi hu)⟩
    · obtain ⟨i, -, hd⟩ := hd
      rw [hsame hu i, BitVec.and_self] at hd
      exact absurd rfl hd
  · by_cases hu : baseOf addr s % 4 = 0
    · exact Or.inr ⟨hfits, he.trans (pages_idle hidle hhi (by omega))⟩
    · exact absurd (hsame hu k) hd

/-- The sector that shows it, where the data is neither kept nor had by an erase. -/
theorem broken_of_not_kept (hv : Visited addr len s) (ha : 0 < addr) (hhi : addr + len ≤ 2 ^ 32)
    (hr : Readable addr len s) (hk : ¬ Kept f addr len data s)
    (hw : wiped = some s ↔ Same f addr len data s)
    (h : sector (passing addr data wiped) addr len data verify s f = .ok (b, f')) :
    ¬ Same f' addr len data s := by
  have hbound := hv.bounds
  have hblank (hs : Same (erase f fun x => SECTOROF x = s) addr len data s) :
      Blank addr len data s := by
    intro x hx
    rw [← hs x hx]
    exact erase_of ((sectorof_eq_iff hv.whole).mpr (by simp only [Part] at hx; omega))
  by_cases hs : Same f addr len data s
  · have hno : ¬ (baseOf addr s % 4 ≠ 0 ∨ Blank addr len data s ∨
        ∀ x, Part addr len s x → ¬ Words addr len s x → data (x - addr) = 0) :=
      fun hno => hk (Or.inl ⟨hs, hno⟩)
    simp only [not_or, not_forall, not_not] at hno
    obtain ⟨hu, hnb, x, hx, hnw, hne⟩ := hno
    have hwiped := hw.mpr hs
    rcases sector_passing f data verify hv ha hhi hr
        (fun hn => absurd hu hn) with ⟨-, he⟩ | ⟨hfits, -⟩
    · rw [he] at h
      cases h
      exact fun hs' => hnb (hblank hs')
    · have hfit := hfits (x - baseOf addr s) (by simp only [Part, lnOf] at *; omega)
      rw [seen_rest (by rwa [show baseOf addr s + (x - baseOf addr s) = x by
        simp only [Part] at hx; omega]), wanted_part data hv hx.1] at hfit
      simp only [passing, hwiped, if_true] at hfit
      rw [show (0 : Byte) &&& data (x - addr) = 0 from BitVec.zero_and] at hfit
      exact absurd hfit.symm hne
  · have hwiped : wiped ≠ some s := fun hn => hs (hw.mp hn)
    rcases sector_passing f data verify hv ha hhi hr
        (fun _ => hwiped) with ⟨⟨i, hi, hd⟩, he⟩ | ⟨-, he⟩
    · rw [he] at h
      cases h
      intro hs'
      have hpart := part_add hi
      have hwant := wanted_part data hv hpart.1
      rw [Nat.add_sub_cancel_left] at hwant
      by_cases hword : Words addr len s (baseOf addr s + i)
      · have hseen := seen_words (g := passing addr data wiped) (f := f) hword
        rw [Nat.add_sub_cancel_left] at hseen
        refine hk (Or.inr ⟨hblank hs', _, hword, fun hones => hd ?_⟩)
        rw [hseen, hones, BitVec.allOnes_and]
      · refine hd ?_
        rw [seen_rest hword]
        simp only [passing, if_neg hwiped, BitVec.and_self]
    · rw [he] at h
      cases h
      exact hs

theorem Visited.next (hs : s % SECTORSZB = 0) : (s + SECTORSZB) % SECTORSZB = 0 := by
  rw [Nat.add_mod_right, hs]

theorem sectorof_whole (a : ℕ) : SECTOROF a % SECTORSZB = 0 := by
  simp only [SECTOROF, SECTORSZB, NPAGES]
  omega

theorem sectorof_mono {a b : ℕ} (h : a ≤ b) : SECTOROF a ≤ SECTOROF b :=
  Nat.mul_le_mul_right _ (Nat.div_le_div_right h)

/-- A round of the loop: it fails, and the loop ends, or the loop goes on. -/
theorem sectors_cases (hs : s % SECTORSZB = 0) (hf : SECTOROF addr ≤ s)
    (h : sectors g addr len data verify s f = .ok (b, f')) :
    (¬ Visited addr len s ∧ f' = f) ∨
      (Visited addr len s ∧ b = false ∧ sector g addr len data verify s f = .ok (false, f')) ∨
      (Visited addr len s ∧ ∃ f₁, sector g addr len data verify s f = .ok (true, f₁) ∧
        sectors g addr len data verify (s + SECTORSZB) f₁ = .ok (b, f')) := by
  rw [sectors] at h
  split_ifs at h with hc
  · cases hq : sector g addr len data verify s f with
    | error e => rw [hq] at h; cases h
    | ok r =>
      obtain ⟨_ | _, f₁⟩ := r
      · rw [hq] at h
        cases h
        exact Or.inr (Or.inl ⟨⟨hs, hf, hc⟩, rfl, rfl⟩)
      · rw [hq] at h
        exact Or.inr (Or.inr ⟨⟨hs, hf, hc⟩, f₁, rfl, h⟩)
  · cases h
    exact Or.inl ⟨fun hv => hc hv.last, rfl⟩

theorem sectors_frame (ha : 0 < addr) (hs : s % SECTORSZB = 0) (hf : SECTOROF addr ≤ s)
    (h : sectors g addr len data verify s f = .ok (b, f'))
    (hx : SECTOROF x < s ∨ ¬ Visited addr len (SECTOROF x) ∨ lnOf addr len (SECTOROF x) = 0) :
    f' x = f x := by
  induction hk : SECTOROF (addr + len + SECTORSZB - 1) - s using Nat.strong_induction_on
    generalizing s f with
  | _ k ih =>
    have hround {b₁ : Bool} {f₁ : Flash} (hv : Visited addr len s)
        (hsec : sector g addr len data verify s f = .ok (b₁, f₁)) : f₁ x = f x := by
      refine sector_frame hv ha hsec ?_
      by_cases he : SECTOROF x = s
      · rcases hx with hx | hx | hx
        · omega
        · exact absurd (he ▸ hv) hx
        · exact Or.inr (he ▸ hx)
      · exact Or.inl he
    rcases sectors_cases hs hf h with ⟨-, rfl⟩ | ⟨hv, -, hsec⟩ | ⟨hv, f₁, hsec, hrest⟩
    · rfl
    · exact hround hv hsec
    · have hlast := hv.last
      have hpos : 0 < SECTORSZB := by simp [SECTORSZB, NPAGES]
      rw [ih _ (by omega) (Visited.next hs) (by omega) hrest (hx.imp_left (by omega)) rfl]
      exact hround hv hsec

/-- Every sector has its round, between what it was at first and what it is in the end, if no
round fails but the last. -/
theorem sectors_at {t : ℕ} (ha : 0 < addr) (hs : s % SECTORSZB = 0) (hf : SECTOROF addr ≤ s)
    (h : sectors g addr len data verify s f = .ok (b, f'))
    (hgo : b = false → ∀ t, s ≤ t → ∀ f₁ f₂, Visited addr len t →
      (∀ x, SECTOROF x = t → f₁ x = f x) → sector g addr len data verify t f₁ = .ok (false, f₂) →
        ¬ Visited addr len (t + SECTORSZB))
    (ht : Visited addr len t) (hst : s ≤ t) :
    ∃ b₁ f₁ f₂, sector g addr len data verify t f₁ = .ok (b₁, f₂) ∧
      (∀ x, SECTOROF x = t → f₁ x = f x) ∧ ∀ x, SECTOROF x = t → f' x = f₂ x := by
  induction hk : SECTOROF (addr + len + SECTORSZB - 1) - s using Nat.strong_induction_on
    generalizing s f with
  | _ k ih =>
    have hnext (he : s ≠ t) : s + SECTORSZB ≤ t := by
      have := ht.whole
      simp only [SECTORSZB, NPAGES] at *
      omega
    have hpos : 0 < SECTORSZB := by simp [SECTORSZB, NPAGES]
    rcases sectors_cases hs hf h with ⟨hn, -⟩ | ⟨hv, hb, hsec⟩ | ⟨hv, f₁, hsec, hrest⟩
    · exact absurd ⟨hs, hf, hst.trans_lt ht.last⟩ hn
    · by_cases he : s = t
      · subst he
        exact ⟨false, f, f', hsec, fun _ _ => rfl, fun _ _ => rfl⟩
      · exact absurd ⟨Visited.next hs, by omega, (hnext he).trans_lt ht.last⟩
          (hgo hb s (le_refl s) f f' hv (fun _ _ => rfl) hsec)
    · have hlast := hv.last
      have hkept (x : ℕ) (hx : SECTOROF x ≠ s) := sector_frame hv ha hsec (Or.inl hx)
      by_cases he : s = t
      · subst he
        exact ⟨true, f, f₁, hsec, fun _ _ => rfl, fun x hx =>
          sectors_frame ha (Visited.next hs) (by omega) hrest (Or.inl (by omega))⟩
      · obtain ⟨b₁, f₂, f₃, h₁, h₂, h₃⟩ := ih _ (by omega) (Visited.next hs) (by omega) hrest
          (fun hb t' hle f₁' f₂' ht' ha' => hgo hb t' (by omega) f₁' f₂' ht' fun x hx =>
            (ha' x hx).trans (hkept x (by omega)))
          (hnext he) rfl
        exact ⟨b₁, f₂, f₃, h₁, fun x hx => (h₂ x hx).trans (hkept x (by omega)), h₃⟩

theorem sectors_ok (hs : s % SECTORSZB = 0) (hf : SECTOROF addr ≤ s)
    (h : ∀ t f, Visited addr len t → ∃ f', sector g addr len data verify t f = .ok (true, f')) :
    ∃ f', sectors g addr len data verify s f = .ok (true, f') := by
  induction hk : SECTOROF (addr + len + SECTORSZB - 1) - s using Nat.strong_induction_on
    generalizing s f with
  | _ k ih =>
    rw [sectors]
    split_ifs with hc
    · obtain ⟨f₁, hsec⟩ := h s f ⟨hs, hf, hc⟩
      have hpos : 0 < SECTORSZB := by simp [SECTORSZB, NPAGES]
      rw [hsec]
      exact ih _ (by omega) (Visited.next hs) (by omega) rfl
    · exact ⟨f, rfl⟩

/-- The range holds the data, and sectors it does not overlap are what they were. -/
structure Written (f f' : Flash) (addr len : ℕ) (data : ℕ → Byte) : Prop where
  data : ∀ i, i < len → f' (addr + i) = data i
  frame : ∀ a, (∀ i, i < len → SECTOROF (addr + i) ≠ SECTOROF a) → f' a = f a

/-- If all that the range overlaps can be read, then it is kept, or had by an erase. -/
def Settled (f : Flash) (addr len : ℕ) (data : ℕ → Byte) : Prop :=
  (∀ s, Visited addr len s → Readable addr len s) →
    ∀ s, Visited addr len s → Kept f addr len data s

theorem visited_of_range (hi : i < len) : Visited addr len (SECTOROF (addr + i)) := by
  refine ⟨sectorof_whole _, ?_, ?_⟩
  · simp only [SECTOROF, SECTORSZB, NPAGES]
    omega
  · simp only [SECTOROF, SECTORSZB, NPAGES]
    omega

theorem part_of_range (hi : i < len) : Part addr len (SECTOROF (addr + i)) (addr + i) := by
  simp only [Part, baseOf, endOf, SECTOROF, SECTORSZB, NPAGES]
  split_ifs <;> omega

theorem Part.sectorof (hv : Visited addr len s) (hx : Part addr len s x) : SECTOROF x = s := by
  have := hv.bounds
  rw [sectorof_eq_iff hv.whole]
  simp only [Part] at hx
  omega

theorem Visited.agree (hv : Visited addr len s) (h : ∀ x, SECTOROF x = s → f' x = f x)
    (hx : Part addr len s x) : f' x = f x :=
  h x (hx.sectorof hv)

theorem Same.congr (hs : Same f addr len data s) (h : ∀ x, Part addr len s x → f' x = f x) :
    Same f' addr len data s :=
  fun x hx => (h x hx).trans (hs x hx)

theorem Kept.congr (hk : Kept f addr len data s) (h : ∀ x, Part addr len s x → f' x = f x) :
    Kept f' addr len data s := by
  rcases hk with ⟨hs, hr⟩ | ⟨hb, x, hx, hne⟩
  · exact Or.inl ⟨hs.congr h, hr⟩
  · exact Or.inr ⟨hb, x, hx, by rwa [h x (words_part hx)]⟩

/-- Outside of the sectors that are overlapped nothing changes, whatever the memory held. -/
theorem write_frame (ha : 0 < addr) (h : write g f addr len data verify = .ok (b, f'))
    (hx : ∀ i, i < len → SECTOROF (addr + i) ≠ SECTOROF x) : f' x = f x := by
  refine sectors_frame ha (sectorof_whole addr) (le_refl _) h (Or.inr ?_)
  by_cases hv : Visited addr len (SECTOROF x)
  · refine Or.inr ?_
    by_contra hne
    have hp : Part addr len (SECTOROF x) (baseOf addr (SECTOROF x) + 0) := part_add (by omega)
    have hb := hv.bounds
    have hs := hp.sectorof hv
    refine hx (baseOf addr (SECTOROF x) - addr) (by simp only [Part] at hp; omega) ?_
    rw [show addr + (baseOf addr (SECTOROF x) - addr) = baseOf addr (SECTOROF x) + 0 by omega]
    exact hs
  · exact Or.inl hv

theorem Settled.written (hs : Settled f addr len data) (ha : 0 < addr)
    (h : write g f addr len data verify = .ok (true, f')) : Written f f' addr len data := by
  have hround (t : ℕ) (ht : Visited addr len t) :=
    sectors_at ha (sectorof_whole addr) (le_refl _) h nofun ht ht.first
  have hkept := hs fun s hv => by
    obtain ⟨b₁, f₁, f₂, hsec, -, -⟩ := hround s hv
    exact readable_of_sector hsec
  refine ⟨fun i hi => ?_, fun a => write_frame ha h⟩
  have hv : Visited addr len (SECTOROF (addr + i)) := visited_of_range hi
  obtain ⟨b₁, f₁, f₂, hsec, h₁, h₂⟩ := hround _ hv
  have hsame := ((hkept _ hv).congr fun _ => hv.agree h₁).sector hv ha hsec
  have := hsame _ (part_of_range hi)
  rw [h₂ _ rfl, this, Nat.add_sub_cancel_left]

theorem same_of_written (hv : Visited addr len s) (h : Written f f' addr len data) :
    Same f' addr len data s := by
  intro x hx
  have hb := hv.bounds
  simp only [Part] at hx
  have hd := h.data (x - addr) (by omega)
  rwa [show addr + (x - addr) = x by omega] at hd

theorem settled_of_written (ha : 0 < addr) (hhi : addr + len ≤ 2 ^ 32)
    (h : ∀ g f', write g f addr len data verify = .ok (true, f') → Written f f' addr len data) :
    Settled f addr len data := by
  intro hr s hv
  by_contra hk
  -- wipe what is read into `sbuf` where the data is already there
  obtain ⟨wiped, hw, hother⟩ : ∃ wiped : Option ℕ, (wiped = some s ↔ Same f addr len data s) ∧
      ∀ t, baseOf addr t % 4 ≠ 0 → wiped ≠ some t := by
    by_cases hs : Same f addr len data s
    · refine ⟨some s, by simp [hs], fun t hu he => hk (Or.inl ⟨hs, Or.inl ?_⟩)⟩
      rwa [Option.some.inj he]
    · exact ⟨none, by simp [hs], fun t _ => by simp⟩
  obtain ⟨f', hf'⟩ :
      ∃ f', write (passing addr data wiped) f addr len data verify = .ok (true, f') :=
    sectors_ok (sectorof_whole addr) (le_refl _) fun t f ht => by
      rcases sector_passing f data verify ht ha hhi (hr t ht) (hother t) with ⟨-, he⟩ | ⟨-, he⟩
      · exact ⟨_, he⟩
      · exact ⟨_, he⟩
  obtain ⟨b₁, f₁, f₂, hsec, h₁, h₂⟩ :=
    sectors_at ha (sectorof_whole addr) (le_refl _) hf' nofun hv hv.first
  have hback (x : ℕ) (hx : Part addr len s x) : f x = f₁ x := (hv.agree h₁ hx).symm
  refine broken_of_not_kept hv ha hhi (hr s hv) (fun hk₁ => hk (hk₁.congr hback))
    ⟨fun he => (hw.mp he).congr fun _ => hv.agree h₁, fun hs => hw.mpr (hs.congr hback)⟩ hsec ?_
  exact (same_of_written hv (h _ _ hf')).congr fun x hx => (hv.agree h₂ hx).symm

/-- The whole words of the range hold the data; what is left of it was not written. -/
structure WholeWords (f f' : Flash) (addr len : ℕ) (data : ℕ → Byte) : Prop where
  words : ∀ i, addr + i < (addr + len) / 4 * 4 → f' (addr + i) = data i
  rest : ∀ i, i < len → (addr + len) / 4 * 4 ≤ addr + i →
    f' (addr + i) = f (addr + i) ∨ f' (addr + i) = BitVec.allOnes 8
  frame : ∀ a, (∀ i, i < len → SECTOROF (addr + i) ≠ SECTOROF a) → f' a = f a

theorem words_of_lt (hx : Part addr len s x) (hu : baseOf addr s % 4 = 0)
    (he : x < endOf addr len s / 4 * 4) : Words addr len s x := by
  simp only [Words, Part, lnOf] at *
  omega

theorem sector_intended (f : Flash) (data : ℕ → Byte) (verify : Bool)
    (hg : ∀ p, p < addr + len → g.clipped addr p = left addr len p) (hv : Visited addr len s)
    (ha : 0 < addr) (h4 : addr % 4 = 0) :
    ∃ f', sector g addr len data verify s f = .ok (true, f') ∧
      ∀ x, Part addr len s x →
        (x < endOf addr len s / 4 * 4 → f' x = data (x - addr)) ∧
          (endOf addr len s / 4 * 4 ≤ x → f' x = f x ∨ f' x = BitVec.allOnes 8) := by
  have hbound := hv.bounds
  have hu : baseOf addr s % 4 = 0 := by
    simp only [baseOf]
    have := hv.whole
    simp only [SECTORSZB, NPAGES] at this
    split_ifs <;> omega
  have hpart (i : ℕ) (hi : Part addr len s i) : i - baseOf addr s < lnOf addr len s := by
    simp only [Part, lnOf] at *
    omega
  rcases sector_split g f data verify hv ha (Or.inr hu) with
    ⟨hall, he⟩ | ⟨-, he⟩ | ⟨hfits, k, hk, -, hbefore, he⟩
  · refine ⟨f, he, fun x hx => ⟨fun hlt => ?_, fun _ => Or.inl rfl⟩⟩
    have hseen := hall _ (hpart x hx)
    rwa [seen_words (words_of_lt hx hu hlt), wanted_part data hv hx.1] at hseen
  · have hones (x : ℕ) (hx : Part addr len s x) : SECTOROF x = s := hx.sectorof hv
    have hprog := programmable_erase (f := f) (d := fun x => data (x - addr))
      (P := fun x => SECTOROF x = s)
      (Q := fun x => baseOf addr s ≤ x ∧ x < endOf addr len s / 4 * 4)
      fun x hx => hones x ⟨hx.1, by omega⟩
    refine ⟨_, he.trans (pages_intended (fun q _ _ _ => hg q) hv.whole hu (by omega) (by omega)
      hprog), ?_⟩
    refine fun x hx => ⟨fun hlt => program_eq hprog ⟨hx.1, hlt⟩, fun hle => Or.inr ?_⟩
    rw [program_frame (by omega)]
    exact erase_of (hones x hx)
  · have hprog : Programmable f (fun x => data (x - addr))
        fun x => k / 4 * 4 + baseOf addr s ≤ x ∧ x < endOf addr len s / 4 * 4 := by
      intro x hx
      have hp : Part addr len s x := ⟨by omega, by omega⟩
      have hfit := hfits _ (hpart x hp)
      rwa [seen_words (words_of_lt hp hu hx.2), wanted_part data hv hp.1] at hfit
    refine ⟨_, he.trans (pages_intended (fun q _ _ _ => hg q) hv.whole (by omega) (by omega)
      (by omega) hprog), ?_⟩
    refine fun x hx => ⟨fun hlt => ?_, fun hle => Or.inl (program_frame (by omega))⟩
    have hx₀ := hx.1
    by_cases hx₁ : k / 4 * 4 + baseOf addr s ≤ x
    · exact program_eq hprog ⟨hx₁, hlt⟩
    · have hseen := hbefore (x - baseOf addr s) (by omega)
      rw [seen_words (words_of_lt hx hu hlt), wanted_part data hv hx.1] at hseen
      rw [program_frame (by omega), hseen]

/-- Were the inner `len` what is left of the outer, an aligned write would not fail, and would
put into the flash all the whole words of its range. -/
theorem write_intended (f : Flash) (addr len : ℕ) (data : ℕ → Byte) (verify : Bool)
    (hg : ∀ p, g.len p = BitVec.ofNat 32 len) (ha : 0 < addr)
    (h4 : addr % 4 = 0) (hhi : addr + len < 2 ^ 32) :
    ∃ f', write g f addr len data verify = .ok (true, f') ∧ WholeWords f f' addr len data := by
  have hlen (p : ℕ) (hp : p < addr + len) : g.clipped addr p = left addr len p :=
    clipped_intended (hg p) hp hhi
  obtain ⟨f', hf'⟩ : ∃ f', write g f addr len data verify = .ok (true, f') :=
    sectors_ok (sectorof_whole addr) (le_refl _) fun t f ht => by
      obtain ⟨f', he, -⟩ := sector_intended f data verify hlen ht ha h4
      exact ⟨f', he⟩
  have hround (i : ℕ) (hi : i < len) :
      (addr + i < endOf addr len (SECTOROF (addr + i)) / 4 * 4 → f' (addr + i) = data i) ∧
        (endOf addr len (SECTOROF (addr + i)) / 4 * 4 ≤ addr + i →
          f' (addr + i) = f (addr + i) ∨ f' (addr + i) = BitVec.allOnes 8) := by
    have hv : Visited addr len (SECTOROF (addr + i)) := visited_of_range hi
    obtain ⟨b₁, f₁, f₂, hsec, h₁, h₂⟩ :=
      sectors_at ha (sectorof_whole addr) (le_refl _) hf' nofun hv hv.first
    obtain ⟨f₃, he, hall⟩ := sector_intended f₁ data verify hlen hv ha h4
    rw [hsec] at he
    cases he
    have hx := hall _ (part_of_range hi)
    rwa [← h₂ _ rfl, h₁ _ rfl, Nat.add_sub_cancel_left] at hx
  have hend (i : ℕ) (hi : i < len) :
      addr + i < endOf addr len (SECTOROF (addr + i)) / 4 * 4 ↔
        addr + i < (addr + len) / 4 * 4 := by
    simp only [endOf, SECTOROF, SECTORSZB, NPAGES]
    split_ifs <;> omega
  refine ⟨f', hf', fun i hi => ?_, fun i hi hle => ?_, fun a => write_frame ha hf'⟩
  · exact (hround i (by omega)).1 ((hend i (by omega)).mpr hi)
  · refine (hround i hi).2 ?_
    have := hend i hi
    omega

theorem WholeWords.written (h : WholeWords f f' addr len data) (h4 : (addr + len) % 4 = 0) :
    Written f f' addr len data :=
  ⟨fun i hi => h.words i (by omega), h.frame⟩

theorem write_iff (hlo : SPIFLASH ≤ addr) (hhi : addr + len ≤ SPIFLASH + FLASHLEN) :
    (∀ g f', write g f addr len data true = .ok (true, f') → Written f f' addr len data) ↔
      Settled f addr len data := by
  simp only [SPIFLASH, FLASHLEN] at hlo hhi
  exact ⟨settled_of_written (by omega) (by omega),
    fun hs g f' => hs.written (by omega)⟩

/-- Zeros in the flash, and data of ones: an erase does it. -/
theorem write_iff_ones : ∃ f', write ⟨fun _ => 8, fun _ _ => 0⟩ (fun _ => 0) 0x1000000 8
      (fun _ => BitVec.allOnes 8) true = .ok (true, f') ∧
    Written (fun _ => 0) f' 0x1000000 8 fun _ => BitVec.allOnes 8 := by
  obtain ⟨f', hf', -⟩ := write_intended (g := ⟨fun _ => 8, fun _ _ => 0⟩) (fun _ => 0) 0x1000000 8
    (fun _ => BitVec.allOnes 8) true (fun _ => rfl) (by decide) (by decide) (by decide)
  refine ⟨f', hf', (write_iff (by simp [SPIFLASH]) (by simp [SPIFLASH, FLASHLEN])).mpr ?_ _ _ hf'⟩
  intro _ s hv
  have hs : s = 0x1000000 := by
    obtain ⟨h₁, h₂, h₃⟩ := hv
    simp only [SECTOROF, SECTORSZB, NPAGES] at *
    omega
  subst hs
  refine Or.inr ⟨fun _ _ => rfl, 0x1000000, ⟨by decide, ?_⟩, by decide⟩
  simp [baseOf, lnOf, endOf, SECTORSZB, NPAGES]

/-- Zeros for a blank flash: the inner `len` lets a page pass that was not written; and,
where it is what is meant, five bytes are written as four. -/
theorem write_misses :
    (∃ g f', write g (fun _ => 0xff) 0x1000000 4 (fun _ => 0) true = .ok (true, f') ∧
      ¬ Written (fun _ => 0xff) f' 0x1000000 4 fun _ => 0) ∧
    ∃ f', write ⟨fun _ => 5, fun _ _ => 0⟩ (fun _ => 0xff) 0x1000000 5 (fun _ => 0) true =
        .ok (true, f') ∧ ¬ Written (fun _ => 0xff) f' 0x1000000 5 fun _ => 0 := by
  constructor
  · by_contra hall
    have hset : Settled (fun _ => 0xff) 0x1000000 4 fun _ => 0 :=
      settled_of_written (by decide) (by decide) fun g f' (h : write g _ _ _ _ true = _) => by
        by_contra hn
        exact hall ⟨g, f', h, hn⟩
    have hv : Visited 0x1000000 4 0x1000000 := by
      refine ⟨?_, ?_, ?_⟩ <;> simp [SECTOROF, SECTORSZB, NPAGES]
    have hpart : Part 0x1000000 4 0x1000000 0x1000000 := by
      simp [Part, baseOf, endOf, SECTORSZB, NPAGES]
    have hread (s : ℕ) (hs : Visited 0x1000000 4 s) : Readable 0x1000000 4 s := by
      have hw := hs.whole
      simp only [SECTORSZB, NPAGES] at hw
      refine Or.inr ?_
      unfold baseOf
      split_ifs <;> omega
    rcases hset hread _ hv with ⟨hs, -⟩ | ⟨hb, -⟩
    · exact absurd (hs _ hpart) (by decide)
    · exact absurd (hb _ hpart) (by decide)
  · obtain ⟨f', hf', hw⟩ := write_intended (g := ⟨fun _ => 5, fun _ _ => 0⟩) (fun _ => 0xff)
      0x1000000 5 (fun _ => 0) true (fun _ => rfl) (by decide) (by decide) (by decide)
    refine ⟨f', hf', fun hn => ?_⟩
    have hd := hn.data 4 (by decide)
    rcases hw.rest 4 (by decide) (by decide) with hr | hr
    · exact absurd (hr.symm.trans hd) (by decide)
    · exact absurd (hr.symm.trans hd) (by decide)

end S6Soc.FlashDrvr
