import S6Soc.FlashWrite

/-! What a flash write leaves, also where it reports a failure, if each sector is kept or each
page that is gone to gets the length that is meant. -/
namespace S6Soc.FlashDrvr
open NorFlash

variable {f f' f₁ : Flash} {addr len s x p i : ℕ} {data : ℕ → Byte} {verify b : Bool} {g : Garbage}
  {Used : ℕ → Prop}

def NeedsErase (f : Flash) (addr len : ℕ) (data : ℕ → Byte) (s : ℕ) : Prop :=
  ∃ x, Part addr len s x ∧ f x &&& data (x - addr) ≠ data (x - addr)

/-- The sector's part of the range is whole words. -/
structure WholePart (addr len s : ℕ) : Prop where
  first : baseOf addr s % 4 = 0
  last : endOf addr len s % 4 = 0

/-- The write goes to a page at `p`: all of them after an erase, and otherwise those from the
first word on that differs. -/
def Asked (f : Flash) (addr len : ℕ) (data : ℕ → Byte) (s p : ℕ) : Prop :=
  Part addr len s p ∧
    (NeedsErase f addr len data s ∧ (p = baseOf addr s ∨ p % PGLENB = 0) ∨
      ∃ x, Part addr len s x ∧ f x ≠ data (x - addr) ∧ x / 4 * 4 ≤ p ∧
        (p % PGLENB = 0 ∨ p % 4 = 0 ∧ ∀ y, Part addr len s y → y < p → f y = data (y - addr)))

/-- Each page that the write goes to gets the length that is meant. -/
structure Intended (g : Garbage) (f : Flash) (addr len : ℕ) (data : ℕ → Byte) (s : ℕ) : Prop
    extends WholePart addr len s where
  pages : ∀ p, Asked f addr len data s p → g.clipped addr p = left addr len p

/-- The sector's part of the range holds the data, and the rest of it is what it was, unless an
erase was needed. -/
structure Renewed (f f' : Flash) (addr len : ℕ) (data : ℕ → Byte) (s : ℕ) : Prop where
  same : Same f' addr len data s
  erased : NeedsErase f addr len data s → ∀ x, SECTOROF x = s → ¬ Part addr len s x →
    f' x = BitVec.allOnes 8
  rest : ¬ NeedsErase f addr len data s → ∀ x, SECTOROF x = s → ¬ Part addr len s x → f' x = f x

/-- Whatever the memory holds, or with the lengths it does hold, the sector comes out right. -/
def Sound (g : Garbage) (f : Flash) (addr len : ℕ) (data : ℕ → Byte) : Prop :=
  ∀ s, Visited addr len s → Kept f addr len data s ∨ Intended g f addr len data s

/-- And beside its part of the range, where that is of use, the sector comes out right too. -/
structure SoundFor (Used : ℕ → Prop) (g : Garbage) (f : Flash) (addr len : ℕ) (data : ℕ → Byte) :
    Prop where
  sound : Sound g f addr len data
  intended : ∀ x, Visited addr len (SECTOROF x) → Used x → ¬ Part addr len (SECTOROF x) x →
    Intended g f addr len data (SECTOROF x)

instance (addr len s : ℕ) : Decidable (Visited addr len s) :=
  decidable_of_iff (s % SECTORSZB = 0 ∧ SECTOROF addr ≤ s ∧
      s < SECTOROF (addr + len + SECTORSZB - 1))
    ⟨fun h => ⟨h.1, h.2.1, h.2.2⟩, fun h => ⟨h.1, h.2, h.3⟩⟩

instance (f : Flash) (addr len : ℕ) (data : ℕ → Byte) (s : ℕ) :
    Decidable (NeedsErase f addr len data s) :=
  decidable_of_iff (∃ x, x < endOf addr len s ∧
      baseOf addr s ≤ x ∧ f x &&& data (x - addr) ≠ data (x - addr))
    ⟨fun h => h.imp fun _ h => ⟨⟨h.2.1, h.1⟩, h.2.2⟩, fun h => h.imp fun _ h => ⟨h.1.2, h.1.1, h.2⟩⟩

/-- The flash after a write that does what is meant. -/
def after (f : Flash) (addr len : ℕ) (data : ℕ → Byte) : Flash := fun x =>
  if addr ≤ x ∧ x < addr + len then data (x - addr)
  else if Visited addr len (SECTOROF x) ∧ NeedsErase f addr len data (SECTOROF x) then
    BitVec.allOnes 8
  else f x

theorem WholePart.words (hw : WholePart addr len s) (hx : Part addr len s x) :
    Words addr len s x := by
  obtain ⟨h₁, h₂⟩ := hw
  simp only [Words, Part, lnOf] at *
  omega

theorem WholePart.seen (hw : WholePart addr len s) (hi : i < lnOf addr len s) :
    seen g f addr len s i = f (baseOf addr s + i) := by
  have hs := seen_words (g := g) (f := f) (hw.words (part_add hi))
  rwa [Nat.add_sub_cancel_left] at hs

theorem wanted_add (data : ℕ → Byte) (hv : Visited addr len s) (hi : i < lnOf addr len s) :
    wanted addr data s i = data (baseOf addr s + i - addr) := by
  have hw := wanted_part data hv (part_add hi).1
  rwa [Nat.add_sub_cancel_left] at hw

theorem Part.index (hx : Part addr len s x) :
    x - baseOf addr s < lnOf addr len s ∧ baseOf addr s + (x - baseOf addr s) = x := by
  simp only [Part, lnOf] at *
  omega

theorem Part.in_range (hv : Visited addr len s) (hx : Part addr len s x) :
    addr ≤ x ∧ x < addr + len := by
  have := hv.bounds
  simp only [Part] at hx
  omega

theorem NeedsErase.congr (h : ∀ x, Part addr len s x → f' x = f x) :
    NeedsErase f' addr len data s ↔ NeedsErase f addr len data s := by
  refine exists_congr fun x => and_congr_right fun hx => ?_
  rw [h x hx]

theorem Asked.congr (h : ∀ x, Part addr len s x → f' x = f x) (ha : Asked f' addr len data s p) :
    Asked f addr len data s p := by
  refine ⟨ha.1, ha.2.imp (fun he => ⟨(NeedsErase.congr h).mp he.1, he.2⟩) ?_⟩
  rintro ⟨x, hx, hne, hle, hp⟩
  refine ⟨x, hx, by rwa [← h x hx], hle, hp.imp_right fun hp => ⟨hp.1, ?_⟩⟩
  intro y hy hlt
  rw [← h y hy]
  exact hp.2 y hy hlt

theorem Intended.congr (hi : Intended g f addr len data s)
    (h : ∀ x, Part addr len s x → f' x = f x) : Intended g f' addr len data s :=
  ⟨hi.toWholePart, fun p hp => hi.pages p (hp.congr h)⟩

theorem Sound.congr (hs : Sound g f addr len data)
    (h : ∀ x, addr ≤ x → x < addr + len → f' x = f x) : Sound g f' addr len data := by
  intro s hv
  have hpart (x : ℕ) (hx : Part addr len s x) : f' x = f x :=
    h x (hx.in_range hv).1 (hx.in_range hv).2
  exact (hs s hv).imp (fun hk => hk.congr hpart) fun hi => hi.congr hpart

theorem Same.not_needsErase (hs : Same f addr len data s) : ¬ NeedsErase f addr len data s := by
  rintro ⟨x, hx, hne⟩
  rw [hs x hx, BitVec.and_self] at hne
  exact hne rfl

/-- Whole words that the flash holds: no page is gone to. -/
theorem intended_of_same (hw : WholePart addr len s) (hs : Same f addr len data s) :
    Intended g f addr len data s := by
  refine ⟨hw, fun p hp => ?_⟩
  rcases hp.2 with ⟨hn, -⟩ | ⟨x, hx, hne, -⟩
  · exact absurd hn hs.not_needsErase
  · exact absurd (hs x hx) hne

/-- Whole words, and a length that was set: each page gets what is meant. -/
theorem intended_of_len (hg : ∀ p, g.len p = BitVec.ofNat 32 len) (h₁ : addr % 4 = 0)
    (h₂ : (addr + len) % 4 = 0) (hhi : addr + len < 2 ^ 32) (hv : Visited addr len s) :
    Intended g f addr len data s := by
  have hwhole := hv.whole
  have hb := hv.bounds
  refine ⟨⟨?_, ?_⟩, fun p hp => clipped_intended (hg p) ?_ hhi⟩
  · simp only [baseOf, SECTORSZB, NPAGES] at *
    split_ifs <;> omega
  · simp only [endOf, SECTORSZB, NPAGES] at *
    split_ifs <;> omega
  · have := hp.1.2
    omega

theorem Intended.sector (verify : Bool) (hv : Visited addr len s) (ha : 0 < addr)
    (hi : Intended g f addr len data s) : ∃ f', sector g addr len data verify s f = .ok (true, f') ∧
      Renewed f f' addr len data s := by
  have hb := hv.bounds
  have hend : endOf addr len s / 4 * 4 = endOf addr len s := by
    have := hi.last
    omega
  have hpart (q : ℕ) (h₁ : baseOf addr s ≤ q) (h₂ : q < s + SECTORSZB) (h₃ : q < addr + len) :
      Part addr len s q := by
    refine ⟨h₁, ?_⟩
    simp only [endOf]
    split_ifs <;> omega
  rcases sector_split g f data verify hv ha (Or.inr hi.first) with
    ⟨hall, he⟩ | ⟨⟨j, hj, hd⟩, he⟩ | ⟨hfits, k, hk, hne, hbefore, he⟩
  · have hsame : Same f addr len data s := by
      intro x hx
      obtain ⟨hlt, hadd⟩ := hx.index
      have h := hall _ hlt
      rwa [hi.seen hlt, wanted_add data hv hlt, hadd] at h
    exact ⟨f, he, hsame, fun hn => absurd hn hsame.not_needsErase, fun _ _ _ _ => rfl⟩
  · have hn : NeedsErase f addr len data s := by
      refine ⟨_, part_add hj, ?_⟩
      rwa [hi.seen hj, wanted_add data hv hj] at hd
    have hones (x : ℕ) (hx : SECTOROF x = s) :
        erase f (fun x => SECTOROF x = s) x = BitVec.allOnes 8 := erase_of hx
    have hprog := programmable_erase (f := f) (d := fun x => data (x - addr))
      (P := fun x => SECTOROF x = s)
      (Q := fun x => baseOf addr s ≤ x ∧ x < endOf addr len s / 4 * 4) fun x hx =>
      Part.sectorof hv (by rwa [hend] at hx)
    refine ⟨_, he.trans (pages_intended (fun q h₁ h₂ h₃ h₄ => hi.pages q ⟨hpart q h₁ h₃ h₄,
      Or.inl ⟨hn, h₂⟩⟩) hv.whole hi.first (by omega) (by omega) hprog), fun x hx => ?_,
      fun _ x hx hnp => ?_, fun h => absurd hn h⟩
    · exact program_eq hprog (by rwa [hend])
    · rw [program_frame (by rwa [hend])]
      exact hones x hx
  · have hfit (x : ℕ) (hx : Part addr len s x) : f x &&& data (x - addr) = data (x - addr) := by
      obtain ⟨hlt, hadd⟩ := hx.index
      have h := hfits _ hlt
      rwa [hi.seen hlt, wanted_add data hv hlt, hadd] at h
    have hlow (x : ℕ) (hx : Part addr len s x) (hlt : x < k / 4 * 4 + baseOf addr s) :
        f x = data (x - addr) := by
      obtain ⟨hl, hadd⟩ := hx.index
      have h := hbefore (x - baseOf addr s) (by omega)
      rwa [hi.seen hl, wanted_add data hv hl, hadd] at h
    have hdiff : f (baseOf addr s + k) ≠ data (baseOf addr s + k - addr) := by
      rwa [hi.seen hk, wanted_add data hv hk] at hne
    have hfirst := hi.first
    have hpk : Part addr len s (k / 4 * 4 + baseOf addr s) := by
      have := part_add hk
      simp only [Part] at *
      omega
    have hprog : Programmable f (fun x => data (x - addr))
        fun x => k / 4 * 4 + baseOf addr s ≤ x ∧ x < endOf addr len s / 4 * 4 :=
      fun x hx => hfit x ⟨by omega, by omega⟩
    refine ⟨_, he.trans (pages_intended (fun q h₁ h₂ h₃ h₄ => hi.pages q
      ⟨hpart q (by omega) h₃ h₄, Or.inr ⟨_, part_add hk, hdiff, by omega, ?_⟩⟩) hv.whole (by omega)
      (by omega) (by omega) hprog), fun x hx => ?_,
      fun hn => hn.elim fun y hy => absurd (hfit y hy.1) hy.2,
      fun _ x _ hnp => ?_⟩
    · rcases h₂ with rfl | h₂
      · exact Or.inr ⟨by omega, hlow⟩
      · exact Or.inl h₂
    · by_cases hle : k / 4 * 4 + baseOf addr s ≤ x
      · exact program_eq hprog ⟨hle, by rw [hend]; exact hx.2⟩
      · rw [program_frame (by omega)]
        exact hlow x hx (by omega)
    · refine program_frame fun hx => hnp ⟨by omega, by omega⟩

theorem same_of_sector (hv : Visited addr len s) (ha : 0 < addr)
    (hs : Kept f addr len data s ∨ Intended g f addr len data s)
    (h : sector g addr len data verify s f = .ok (b, f')) : Same f' addr len data s := by
  rcases hs with hk | hi
  · exact hk.sector hv ha h
  · obtain ⟨f₁, he, hr⟩ := hi.sector verify hv ha
    rw [h] at he
    cases he
    exact hr.same

/-- Of whole words no page is found to differ. -/
theorem true_of_sector (hv : Visited addr len s) (ha : 0 < addr) (hw : WholePart addr len s)
    (hs : Kept f addr len data s ∨ Intended g f addr len data s)
    (h : sector g addr len data verify s f = .ok (b, f')) : b = true := by
  have hb := hv.bounds
  rcases hs with hk | hi
  · rcases sector_split g f data verify hv ha (Or.inr hw.first) with
      ⟨-, he⟩ | ⟨-, he⟩ | ⟨hfits, k, hk', hne, -, -⟩
    · rw [h] at he
      cases he
      rfl
    · rw [he] at h
      exact pages_true h (by omega) hv.whole hw.first (by omega) (programmable_erase fun x hx =>
        (sectorof_eq_iff hv.whole).mpr (by omega))
    · exfalso
      rw [hw.seen hk', wanted_add data hv hk'] at hne
      rcases hk with ⟨hsame, -⟩ | ⟨hblank, y, hy, hone⟩
      · exact hne (hsame _ (part_add hk'))
      · have hpy := words_part hy
        obtain ⟨hlt, hadd⟩ := hpy.index
        have hfit := hfits _ hlt
        rw [hw.seen hlt, wanted_add data hv hlt, hadd, hblank y hpy, BitVec.and_allOnes] at hfit
        exact hone hfit
  · obtain ⟨f₁, he, -⟩ := hi.sector verify hv ha
    rw [h] at he
    cases he
    rfl

theorem endOf_next (hn : Visited addr len (s + SECTORSZB)) :
    endOf addr len s = s + SECTORSZB := by
  have h₁ := hn.last
  have h₂ := hn.whole
  have hlt : s + SECTORSZB < addr + len := by
    simp only [SECTOROF, SECTORSZB, NPAGES] at *
    omega
  rw [endOf, if_pos hlt]

/-- A range that begins with a word, or a write that reports success, has all its rounds. -/
theorem Sound.rounds (hs : Sound g f addr len data) (ha : 0 < addr)
    (h : write g f addr len data verify = .ok (b, f')) (hb : b = false → addr % 4 = 0)
    (hv : Visited addr len s) : ∃ b₁ f₁ f₂, sector g addr len data verify s f₁ = .ok (b₁, f₂) ∧
      (∀ x, SECTOROF x = s → f₁ x = f x) ∧ ∀ x, SECTOROF x = s → f' x = f₂ x := by
  refine sectors_at ha (sectorof_whole addr) (le_refl _) h (fun hf t _ f₁ f₂ ht h₁ hsec hn => ?_)
    hv hv.first
  have h4 := hb hf
  have hw : WholePart addr len t := by
    have hwhole := ht.whole
    refine ⟨?_, ?_⟩
    · simp only [baseOf, SECTORSZB, NPAGES] at *
      split_ifs <;> omega
    · rw [endOf_next hn]
      simp only [SECTORSZB, NPAGES] at *
      omega
  have := true_of_sector ht ha hw ((hs t ht).imp (fun hk => hk.congr fun _ => ht.agree h₁)
    fun hi => hi.congr fun _ => ht.agree h₁) hsec
  cases this

theorem Sound.written (hs : Sound g f addr len data) (ha : 0 < addr)
    (h : write g f addr len data verify = .ok (b, f')) (hb : b = false → addr % 4 = 0) :
    Written f f' addr len data := by
  refine ⟨fun i hi => ?_, fun a => write_frame ha h⟩
  have hv : Visited addr len (SECTOROF (addr + i)) := visited_of_range hi
  obtain ⟨b₁, f₁, f₂, hsec, h₁, h₂⟩ := hs.rounds ha h hb hv
  have hsame := same_of_sector hv ha ((hs _ hv).imp (fun hk => hk.congr fun _ => hv.agree h₁)
    fun hi => hi.congr fun _ => hv.agree h₁) hsec
  have := hsame _ (part_of_range hi)
  rw [h₂ _ rfl, this, Nat.add_sub_cancel_left]

theorem Sound.renewed (hs : Sound g f addr len data) (ha : 0 < addr)
    (h : write g f addr len data verify = .ok (b, f')) (hb : b = false → addr % 4 = 0)
    (hv : Visited addr len s) (hi : Intended g f addr len data s) :
    Renewed f f' addr len data s := by
  obtain ⟨b₁, f₁, f₂, hsec, h₁, h₂⟩ := hs.rounds ha h hb hv
  obtain ⟨f₃, he, hr⟩ := (hi.congr fun _ => hv.agree h₁).sector verify hv ha
  rw [hsec] at he
  cases he
  have hn : NeedsErase f₁ addr len data s ↔ NeedsErase f addr len data s :=
    NeedsErase.congr fun _ => hv.agree h₁
  refine ⟨hr.same.congr fun _ => hv.agree h₂, fun hne x hx hp => ?_, fun hne x hx hp => ?_⟩
  · exact (h₂ x hx).trans (hr.erased (hn.mpr hne) x hx hp)
  · rw [h₂ x hx, hr.rest (fun hn' => hne (hn.mp hn')) x hx hp, h₁ x hx]

/-- The write of a flash that is `f` where that is of use. -/
theorem SoundFor.eq_after (hs : SoundFor Used g f addr len data)
    (hu : ∀ x, addr ≤ x → x < addr + len → Used x) (he : ∀ x, Used x → f₁ x = f x) (ha : 0 < addr)
    (h : write g f₁ addr len data verify = .ok (b, f')) (hb : b = false → addr % 4 = 0)
    (hx : Used x) : f' x = after f addr len data x := by
  have hrange (y : ℕ) (h₁ : addr ≤ y) (h₂ : y < addr + len) : f₁ y = f y := he y (hu y h₁ h₂)
  have hsound := hs.sound.congr hrange
  have hwritten := hsound.written ha h hb
  rw [after]
  by_cases hin : addr ≤ x ∧ x < addr + len
  · rw [if_pos hin]
    have hd := hwritten.data (x - addr) (by omega)
    rwa [Nat.add_sub_cancel' hin.1] at hd
  · rw [if_neg hin]
    by_cases hv : Visited addr len (SECTOROF x)
    · have hpart (y : ℕ) (hy : Part addr len (SECTOROF x) y) : f₁ y = f y :=
        hrange y (hy.in_range hv).1 (hy.in_range hv).2
      have hnot : ¬ Part addr len (SECTOROF x) x := fun hp => hin (hp.in_range hv)
      have hi := (hs.intended x hv hx hnot).congr hpart
      have hr := hsound.renewed ha h ‹_› hv hi
      have hn : NeedsErase f₁ addr len data (SECTOROF x) ↔
          NeedsErase f addr len data (SECTOROF x) := NeedsErase.congr hpart
      by_cases hne : NeedsErase f addr len data (SECTOROF x)
      · rw [if_pos ⟨hv, hne⟩]
        exact hr.erased (hn.mpr hne) x rfl hnot
      · rw [if_neg fun h => hne h.2, hr.rest (fun h => hne (hn.mp h)) x rfl hnot]
        exact he x hx
    · rw [if_neg fun h => hv h.1, ← he x hx]
      exact hwritten.frame x fun k hk heq => hv (heq ▸ visited_of_range hk)

/-- Where the flash holds the data, a write of whole words does nothing at all. -/
theorem write_same (ha : 0 < addr)
    (h : ∀ s, Visited addr len s → WholePart addr len s ∧ Same f addr len data s) :
    write g f addr len data verify = .ok (true, f) := by
  have hsector (s : ℕ) (hv : Visited addr len s) :
      sector g addr len data verify s f = .ok (true, f) := by
    obtain ⟨hw, hs⟩ := h s hv
    have hseen (j : ℕ) (hj : j < lnOf addr len s) :
        seen g f addr len s j = wanted addr data s j := by
      rw [hw.seen hj, wanted_add data hv hj, hs _ (part_add hj)]
    rcases sector_split g f data verify hv ha (Or.inr hw.first) with
      ⟨-, he⟩ | ⟨⟨j, hj, hd⟩, -⟩ | ⟨-, k, hk, hd, -⟩
    · exact he
    · rw [hseen j hj, BitVec.and_self] at hd
      exact absurd rfl hd
    · exact absurd (hseen k hk) hd
  have hloop (s : ℕ) (hs : s % SECTORSZB = 0) (hf : SECTOROF addr ≤ s) :
      sectors g addr len data verify s f = .ok (true, f) := by
    induction hk : SECTOROF (addr + len + SECTORSZB - 1) - s using Nat.strong_induction_on
      generalizing s with
    | _ k ih =>
      rw [sectors]
      split_ifs with hc
      · have hpos : 0 < SECTORSZB := by simp [SECTORSZB, NPAGES]
        rw [hsector s ⟨hs, hf, hc⟩]
        exact ih _ (by omega) _ (Visited.next hs) (by omega) rfl
      · rfl
  exact hloop _ (sectorof_whole addr) (le_refl _)

theorem not_visited_empty (hs : addr % SECTORSZB = 0) : ¬ Visited addr 0 s := by
  rintro ⟨h₁, h₂, h₃⟩
  simp only [SECTOROF, SECTORSZB, NPAGES] at *
  omega

/-- Nothing is written. -/
theorem write_empty (g : Garbage) (f : Flash) (data : ℕ → Byte) (verify : Bool) (ha : 0 < addr)
    (hs : addr % SECTORSZB = 0) : write g f addr 0 data verify = .ok (true, f) :=
  write_same ha fun _ hv => absurd hv (not_visited_empty hs)

theorem after_empty (hs : addr % SECTORSZB = 0) : after f addr 0 data = f := by
  funext x
  rw [after, if_neg (by omega), if_neg fun h => not_visited_empty hs h.1]

theorem SoundFor.of_intended (h : ∀ s, Visited addr len s → Intended g f addr len data s) :
    SoundFor Used g f addr len data :=
  ⟨fun s hv => Or.inr (h s hv), fun _ hv _ _ => h _ hv⟩

theorem SoundFor.of_empty (hs : addr % SECTORSZB = 0) : SoundFor Used g f addr 0 data :=
  .of_intended fun _ hv => absurd hv (not_visited_empty hs)

end S6Soc.FlashDrvr
