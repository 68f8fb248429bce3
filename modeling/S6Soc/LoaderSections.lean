import S6Soc.FlashDrvr
import S6Soc.Zipload

/-! What the sections of a program put into the buffer of the loader, and where the loader
finds the program to begin and to end. -/
namespace S6Soc.Zipload
open FlashDrvr NorFlash

/-- Bytes that are to be at an address. -/
structure Piece where
  start : ℕ
  len : ℕ
  data : ℕ → Byte

def Piece.Covers (p : Piece) (x : ℕ) : Prop := p.start ≤ x ∧ x < p.start + p.len

instance (p : Piece) (x : ℕ) : Decidable (p.Covers x) := inferInstanceAs (Decidable (_ ∧ _))

def Piece.byte (p : Piece) (x : ℕ) : Byte := p.data (x - p.start)

def Phdr.piece (h : Phdr) : Piece := ⟨h.paddr.toNat, h.filesz.toNat, fun k => h.file.getD k 0⟩

def InFlash (x : ℕ) : Prop := SPIFLASH ≤ x ∧ x < SPIFLASH + FLASHLEN

instance (x : ℕ) : Decidable (InFlash x) := inferInstanceAs (Decidable (_ ∧ _))

/-- The headers before the first that is empty. -/
def taken (hs : List Phdr) : List Phdr := hs.takeWhile fun h => h.filesz != 0

/-- The loop does not go past the piece. -/
def Piece.Touches (p : Piece) : Prop :=
  SPIFLASH ≤ p.start + p.len ∧ p.start ≤ SPIFLASH + FLASHLEN

instance (p : Piece) : Decidable p.Touches := inferInstanceAs (Decidable (_ ∧ _))

/-- Where it begins in the flash, and where it ends. -/
def Piece.first (p : Piece) : ℕ := max p.start SPIFLASH

def Piece.last (p : Piece) : ℕ := min (p.start + p.len) (SPIFLASH + FLASHLEN)

def lowest (b : ℕ) (ps : List Piece) : ℕ :=
  ps.foldl (fun a p => if p.Touches then min a p.first else a) b

def highest (b : ℕ) (ps : List Piece) : ℕ :=
  ps.foldl (fun a p => if p.Touches then max a p.last else a) b

theorem spiflash_eq : SPIFLASH = 0x1000000 := by rw [SPIFLASH]

theorem flashlen_eq : FLASHLEN = 0x1000000 := by rw [FLASHLEN]

variable {hs : List Phdr} {h : Phdr} {x b : ℕ} {p p' : Placing} {s : Section}

def Section.piece (s : Section) : Piece := ⟨s.start.toNat, s.len.toNat, s.data⟩

theorem touches_iff : s.piece.Touches ↔
    SPIFLASH ≤ s.start.toNat + s.len.toNat ∧ s.start.toNat ≤ SPIFLASH + FLASHLEN := Iff.rfl

theorem first_eq (s : Section) : s.piece.first = max s.start.toNat SPIFLASH := rfl

theorem last_eq (s : Section) :
    s.piece.last = min (s.start.toNat + s.len.toNat) (SPIFLASH + FLASHLEN) := rfl

/-- The part of a section that is in the flash. -/
structure Clipped (s : Section) (start idx ln : Word) : Prop where
  touches : s.piece.Touches
  fits : s.start.toNat + s.len.toNat < 2 ^ 32
  first : start.toNat = s.piece.first
  last : start.toNat + ln.toNat = s.piece.last
  index : idx.toNat + s.start.toNat = start.toNat

/-- What is below the flash is cut off. -/
def Section.below (s : Section) : Option (Word × Word × Word) :=
  if s.start.toNat < SPIFLASH then
    if s.len < BitVec.ofNat 32 SPIFLASH - s.start then none
    else some (BitVec.ofNat 32 SPIFLASH, BitVec.ofNat 32 SPIFLASH - s.start,
      s.len - (BitVec.ofNat 32 SPIFLASH - s.start))
  else some (s.start, 0, s.len)

theorem clip_eq {start idx ln : Word} (h : s.below = some (start, idx, ln)) :
    s.clip = if SPIFLASH + FLASHLEN < (start + ln).toNat then
      if SPIFLASH + FLASHLEN < start.toNat then none
      else some (start, idx, BitVec.ofNat 32 (SPIFLASH + FLASHLEN) - start)
    else some (start, idx, ln) := by
  change s.below.bind _ = _
  rw [h]
  rfl

/-- The end of the flash. -/
theorem clip_above {start idx ln : Word} (hs : SPIFLASH ≤ start.toNat)
    (hc : s.below = some (start, idx, ln)) (hfirst : start.toNat = s.piece.first)
    (hlast : start.toNat + ln.toNat = s.start.toNat + s.len.toNat)
    (hidx : idx.toNat + s.start.toNat = start.toNat) :
    s.clip = none ∧ ¬ s.piece.Touches ∨ ∃ start idx ln, s.clip = some (start, idx, ln) ∧
      (FLASHLEN < start.toNat - SPIFLASH + ln.toNat ∨ Clipped s start idx ln) := by
  have h₁ := spiflash_eq
  have h₂ := flashlen_eq
  rw [clip_eq hc]
  by_cases hw : start.toNat + ln.toNat < 2 ^ 32
  · have hadd : (start + ln).toNat = start.toNat + ln.toNat := by
      rw [BitVec.toNat_add, Nat.mod_eq_of_lt hw]
    have htouch : s.piece.Touches ↔ start.toNat ≤ SPIFLASH + FLASHLEN := by
      simp only [touches_iff, first_eq] at *
      omega
    by_cases hover : SPIFLASH + FLASHLEN < start.toNat + ln.toNat
    · rw [hadd, if_pos hover]
      by_cases hpast : SPIFLASH + FLASHLEN < start.toNat
      · rw [if_pos hpast, htouch]
        exact Or.inl ⟨rfl, by omega⟩
      · rw [if_neg hpast]
        refine Or.inr ⟨_, _, _, rfl, Or.inr ⟨htouch.mpr (by omega), by omega, hfirst, ?_, hidx⟩⟩
        rw [BitVec.toNat_sub_of_le (by rw [BitVec.le_def, BitVec.toNat_ofNat]; omega),
          BitVec.toNat_ofNat, last_eq]
        omega
    · rw [hadd, if_neg hover]
      refine Or.inr ⟨_, _, _, rfl, Or.inr ⟨htouch.mpr (by omega), by omega, hfirst, ?_, hidx⟩⟩
      rw [last_eq]
      omega
  · -- It would go round the end of memory.
    have hadd : (start + ln).toNat = start.toNat + ln.toNat - 2 ^ 32 := by
      rw [BitVec.toNat_add]
      have := start.isLt
      have := ln.isLt
      omega
    have hln := ln.isLt
    by_cases hover : SPIFLASH + FLASHLEN < (start + ln).toNat
    · have hpast : SPIFLASH + FLASHLEN < start.toNat := by omega
      rw [if_pos hover, if_pos hpast]
      refine Or.inl ⟨rfl, fun ht => ?_⟩
      have := (touches_iff.mp ht).2
      rw [first_eq] at hfirst
      omega
    · rw [if_neg hover]
      exact Or.inr ⟨_, _, _, rfl, Or.inl (by omega)⟩

theorem clip_cases (s : Section) : s.clip = none ∧ ¬ s.piece.Touches ∨
    ∃ start idx ln, s.clip = some (start, idx, ln) ∧
      (FLASHLEN < start.toNat - SPIFLASH + ln.toNat ∨ Clipped s start idx ln) := by
  have h₁ := spiflash_eq
  have h₂ := flashlen_eq
  by_cases hlo : s.start.toNat < SPIFLASH
  · have hidx : (BitVec.ofNat 32 SPIFLASH - s.start).toNat = SPIFLASH - s.start.toNat := by
      rw [BitVec.toNat_sub_of_le (by rw [BitVec.le_def, BitVec.toNat_ofNat]; omega),
        BitVec.toNat_ofNat]
      omega
    by_cases hpast : s.len < BitVec.ofNat 32 SPIFLASH - s.start
    · left
      have hb : s.below = none := by rw [Section.below, if_pos hlo, if_pos hpast]
      refine ⟨?_, fun ht => ?_⟩
      · change s.below.bind _ = _
        rw [hb]
        rfl
      · rw [BitVec.lt_def, hidx] at hpast
        have := (touches_iff.mp ht).1
        omega
    · have hspi : (BitVec.ofNat 32 SPIFLASH).toNat = SPIFLASH := by
        rw [BitVec.toNat_ofNat]
        omega
      have hln := hpast
      rw [BitVec.lt_def, hidx] at hln
      refine clip_above (le_of_eq hspi.symm)
        (by rw [Section.below, if_pos hlo, if_neg hpast]) ?_ ?_ ?_
      · rw [hspi, first_eq]
        omega
      · rw [hspi, BitVec.toNat_sub_of_le (by rw [BitVec.le_def, hidx]; omega), hidx]
        omega
      · rw [hidx, hspi]
        omega
  · refine clip_above (not_lt.mp hlo) (by rw [Section.below, if_neg hlo]) ?_ rfl ?_
    · rw [first_eq]
      omega
    · rw [show (0 : Word).toNat = 0 from rfl, Nat.zero_add]

/-- One section, where it is clear of the end of memory. -/
theorem place_cases (hp : p.startaddr.toNat + p.codelen.toNat < 2 ^ 32)
    (h : place p s = .ok p') : ¬ s.piece.Touches ∧ p' = p ∨ s.piece.Touches ∧
      p'.startaddr.toNat =
        (if s.piece.first < p.startaddr.toNat then s.start.toNat else p.startaddr.toNat) ∧
      p'.startaddr.toNat + p'.codelen.toNat =
        (if p.startaddr.toNat + p.codelen.toNat < s.piece.last then s.start.toNat + s.len.toNat
          else p.startaddr.toNat + p.codelen.toNat) ∧
      p'.startaddr.toNat + p'.codelen.toNat < 2 ^ 32 ∧
      ∀ x, SPIFLASH ≤ x → p'.fbuf (x - SPIFLASH) =
        if s.piece.first ≤ x ∧ x < s.piece.last then s.data (x - s.start.toNat)
        else p.fbuf (x - SPIFLASH) := by
  rcases clip_cases s with ⟨hc, hn⟩ | ⟨start, idx, ln, hc, hbad | hgood⟩
  · rw [place, hc] at h
    cases h
    exact Or.inl ⟨hn, rfl⟩
  · rw [place, hc] at h
    simp only [if_pos hbad] at h
    cases h
  · obtain ⟨htouch, hfit, hfirst, hlast, hidx⟩ := hgood
    have h₁ := spiflash_eq
    have h₂ := flashlen_eq
    rw [place, hc] at h
    simp only at h
    split_ifs at h with hover
    cases h
    have hle : s.start.toNat ≤ s.piece.first ∧ s.piece.first ≤ s.piece.last ∧
        s.piece.last ≤ s.start.toNat + s.len.toNat ∧ SPIFLASH ≤ s.piece.first := by
      simp only [touches_iff, first_eq, last_eq] at *
      omega
    have hadd : (start + ln).toNat = s.piece.last := by
      rw [BitVec.toNat_add, hlast]
      omega
    -- where it begins
    have hlower : (p.lower s start).startaddr.toNat =
          (if s.piece.first < p.startaddr.toNat then s.start.toNat else p.startaddr.toNat) ∧
        (p.lower s start).startaddr.toNat + (p.lower s start).codelen.toNat =
          p.startaddr.toNat + p.codelen.toNat ∧ (p.lower s start).fbuf = p.fbuf := by
      have hiff : start < p.startaddr ↔ s.piece.first < p.startaddr.toNat := by
        rw [BitVec.lt_def, hfirst]
      unfold Placing.lower
      by_cases hlt : start < p.startaddr
      · rw [if_pos hlt, if_pos (hiff.mp hlt)]
        rw [BitVec.lt_def] at hlt
        refine ⟨rfl, ?_, rfl⟩
        dsimp only
        have hsub : (p.startaddr - s.start).toNat = p.startaddr.toNat - s.start.toNat :=
          BitVec.toNat_sub_of_le (by rw [BitVec.le_def]; omega)
        rw [BitVec.toNat_add, hsub]
        omega
      · rw [if_neg hlt, if_neg fun hl => hlt (hiff.mpr hl)]
        exact ⟨rfl, rfl, rfl⟩
    obtain ⟨hl₁, hl₂, hl₃⟩ := hlower
    have hupper : ((p.lower s start).upper s (start + ln)).startaddr.toNat =
          (p.lower s start).startaddr.toNat ∧
        ((p.lower s start).upper s (start + ln)).startaddr.toNat +
            ((p.lower s start).upper s (start + ln)).codelen.toNat =
          (if p.startaddr.toNat + p.codelen.toNat < s.piece.last then s.start.toNat + s.len.toNat
            else p.startaddr.toNat + p.codelen.toNat) ∧
        ((p.lower s start).upper s (start + ln)).fbuf = p.fbuf := by
      have hend : ((p.lower s start).startaddr + (p.lower s start).codelen).toNat =
          p.startaddr.toNat + p.codelen.toNat := by
        rw [BitVec.toNat_add, hl₂, Nat.mod_eq_of_lt hp]
      have hiff : (p.lower s start).startaddr + (p.lower s start).codelen < start + ln ↔
          p.startaddr.toNat + p.codelen.toNat < s.piece.last := by
        rw [BitVec.lt_def, hend, hadd]
      unfold Placing.upper
      by_cases hlt : (p.lower s start).startaddr + (p.lower s start).codelen < start + ln
      · rw [if_pos hlt, if_pos (hiff.mp hlt)]
        refine ⟨rfl, ?_, hl₃⟩
        dsimp only
        have hsum : (s.start + s.len).toNat = s.start.toNat + s.len.toNat := by
          rw [BitVec.toNat_add, Nat.mod_eq_of_lt hfit]
        have hlow : (p.lower s start).startaddr.toNat ≤ s.piece.first := by
          rw [hl₁]
          split_ifs <;> omega
        rw [BitVec.toNat_sub_of_le (by rw [BitVec.le_def, hsum]; omega), hsum]
        omega
      · rw [if_neg hlt, if_neg fun hl => hlt (hiff.mpr hl)]
        exact ⟨rfl, hl₂, hl₃⟩
    obtain ⟨hu₁, hu₂, hu₃⟩ := hupper
    refine Or.inr ⟨htouch, hu₁.trans hl₁, hu₂, ?_, fun x hx => ?_⟩
    · dsimp only
      rw [hu₂]
      split_ifs <;> omega
    · dsimp only
      rw [memcpy, hu₃]
      by_cases hin : s.piece.first ≤ x ∧ x < s.piece.last
      · rw [if_pos hin, if_pos (by omega)]
        congr 1
        omega
      · rw [if_neg hin, if_neg (by omega)]

/-- The section of a header: the bytes are those of the file, if the file has them all. -/
structure Reads (h : Phdr) (s : Section) : Prop where
  start : s.start = h.paddr
  len : s.len = h.filesz
  data : h.filesz ≤ h.memsz → s.data = fun k => h.file.getD k 0

theorem reads_of_section {last : Bool} {heap : ℕ → Byte} (hs : h.section last heap = some s) :
    Reads h s := by
  unfold Phdr.section at hs
  split_ifs at hs with hlt
  · cases hs
    exact ⟨rfl, rfl, fun hle => absurd hlt (BitVec.not_lt.mpr hle)⟩
  · cases hs
    exact ⟨rfl, rfl, fun _ => rfl⟩

/-- The sections that are looked at are those of the headers before the first empty one. -/
theorem elfSections_loaded {heap : ℕ → Byte} {secs : List Section}
    (he : elfSections heap hs = some secs) : List.Forall₂ Reads (taken hs) (loaded secs) := by
  induction hs generalizing secs with
  | nil =>
    cases he
    exact List.Forall₂.nil
  | cons h hs ih =>
    simp only [elfSections, Option.bind_eq_bind, Option.bind_eq_some_iff, Option.some.injEq] at he
    obtain ⟨s, hs', rest, hrest, rfl⟩ := he
    have hr := reads_of_section hs'
    by_cases hz : h.filesz = 0
    · have ht : taken (h :: hs) = [] := by simp [taken, hz]
      have hl : loaded (s :: rest) = [] := by simp [loaded, hr.len, hz]
      rw [ht, hl]
      exact List.Forall₂.nil
    · have ht : taken (h :: hs) = h :: taken hs :=
        List.takeWhile_cons_of_pos (by simpa using hz)
      have hl : loaded (s :: rest) = s :: loaded rest :=
        List.takeWhile_cons_of_pos (by simpa [hr.len] using hz)
      rw [ht, hl]
      exact List.Forall₂.cons hr (ih hrest)

/-- What is in the buffer for `x` when all sections have been put into it, one over another. -/
def overlay (secs : List Section) (b : Byte) (x : ℕ) : Byte :=
  secs.foldl (fun b s => if InFlash x ∧ s.piece.Covers x then s.piece.byte x else b) b

theorem Piece.covers_iff {q : Piece} :
    (InFlash x ∧ q.Covers x) ↔ q.first ≤ x ∧ x < q.last := by
  simp only [InFlash, Piece.Covers, Piece.first, Piece.last]
  omega

theorem touches_of_covers {q : Piece} (h : InFlash x ∧ q.Covers x) : q.Touches := by
  simp only [InFlash, Piece.Covers, Piece.Touches] at *
  omega

/-- All sections, one after the other. That no section was cut shows in where the program is
found to begin and to end. -/
theorem placeAll_sections {secs : List Section}
    (hp : p.startaddr.toNat + p.codelen.toNat < 2 ^ 32) (h : placeAll p secs = .ok p') :
    p'.startaddr.toNat ≤ p.startaddr.toNat ∧
      p.startaddr.toNat + p.codelen.toNat ≤ p'.startaddr.toNat + p'.codelen.toNat ∧
      (∀ x, SPIFLASH ≤ x → p'.fbuf (x - SPIFLASH) = overlay secs (p.fbuf (x - SPIFLASH)) x) ∧
      (SPIFLASH ≤ p'.startaddr.toNat →
        p'.startaddr.toNat = lowest p.startaddr.toNat (secs.map Section.piece)) ∧
      (p'.startaddr.toNat + p'.codelen.toNat ≤ SPIFLASH + FLASHLEN →
        p'.startaddr.toNat + p'.codelen.toNat =
          highest (p.startaddr.toNat + p.codelen.toNat) (secs.map Section.piece)) := by
  induction secs generalizing p with
  | nil =>
    cases h
    exact ⟨le_refl _, le_refl _, fun _ _ => rfl, fun _ => rfl, fun _ => rfl⟩
  | cons s secs ih =>
    obtain ⟨p₁, hplace, hrest⟩ := bind_ok h
    rcases place_cases hp hplace with ⟨hn, rfl⟩ | ⟨ht, hs₁, he₁, hfit, hbuf⟩
    · obtain ⟨h₁, h₂, h₃, h₄, h₅⟩ := ih hp hrest
      refine ⟨h₁, h₂, fun x hx => ?_, fun hlo => ?_, fun hhi => ?_⟩
      · rw [h₃ x hx, overlay, overlay, List.foldl_cons, if_neg fun hc => hn (touches_of_covers hc)]
      · rw [h₄ hlo, List.map_cons, lowest, lowest, List.foldl_cons, if_neg hn]
      · rw [h₅ hhi, List.map_cons, highest, highest, List.foldl_cons, if_neg hn]
    · obtain ⟨h₁, h₂, h₃, h₄, h₅⟩ := ih hfit hrest
      have hle : s.start.toNat ≤ s.piece.first ∧ s.piece.last ≤ s.start.toNat + s.len.toNat := by
        simp only [Section.piece, Piece.first, Piece.last]
        omega
      refine ⟨h₁.trans ?_, le_trans ?_ h₂, fun x hx => ?_, fun hlo => ?_, fun hhi => ?_⟩
      · rw [hs₁]
        split_ifs <;> omega
      · rw [he₁]
        split_ifs <;> omega
      · rw [h₃ x hx, hbuf x hx, overlay, overlay, List.foldl_cons]
        simp only [Piece.covers_iff]
        rfl
      · rw [h₄ hlo, List.map_cons, lowest, lowest, List.foldl_cons, if_pos ht, hs₁]
        congr 1
        have hf : SPIFLASH ≤ (if s.piece.first < p.startaddr.toNat then s.start.toNat
            else p.startaddr.toNat) := by omega
        have hfirst : s.piece.first = max s.start.toNat SPIFLASH := rfl
        split_ifs at hf ⊢ <;> omega
      · rw [h₅ hhi, List.map_cons, highest, highest, List.foldl_cons, if_pos ht, he₁]
        congr 1
        have hl : (if p.startaddr.toNat + p.codelen.toNat < s.piece.last then
            s.start.toNat + s.len.toNat else p.startaddr.toNat + p.codelen.toNat) ≤
            SPIFLASH + FLASHLEN := by omega
        have hlast : s.piece.last = min (s.start.toNat + s.len.toNat) (SPIFLASH + FLASHLEN) := rfl
        split_ifs at hl ⊢ <;> omega

theorem lowest_le (b : ℕ) (ps : List Piece) :
    lowest b ps ≤ b ∧ ∀ q ∈ ps, q.Touches → lowest b ps ≤ q.first := by
  induction ps generalizing b with
  | nil => exact ⟨le_refl b, by simp⟩
  | cons q ps ih =>
    obtain ⟨h₁, h₂⟩ := ih (if q.Touches then min b q.first else b)
    refine ⟨h₁.trans ?_, fun q' hm ht => ?_⟩
    · split_ifs
      · exact min_le_left _ _
      · exact le_refl b
    · rcases List.mem_cons.mp hm with rfl | hm
      · refine h₁.trans ?_
        rw [if_pos ht]
        exact min_le_right _ _
      · exact h₂ q' hm ht

theorem le_highest (b : ℕ) (ps : List Piece) :
    b ≤ highest b ps ∧ ∀ q ∈ ps, q.Touches → q.last ≤ highest b ps := by
  induction ps generalizing b with
  | nil => exact ⟨le_refl b, by simp⟩
  | cons q ps ih =>
    obtain ⟨h₁, h₂⟩ := ih (if q.Touches then max b q.last else b)
    refine ⟨le_trans ?_ h₁, fun q' hm ht => ?_⟩
    · split_ifs
      · exact le_max_left _ _
      · exact le_refl b
    · rcases List.mem_cons.mp hm with rfl | hm
      · refine le_trans ?_ h₁
        rw [if_pos ht]
        exact le_max_right _ _
      · exact h₂ q' hm ht

theorem lowest_congr {secs : List Section} (hr : List.Forall₂ Reads hs secs) (b : ℕ) :
    lowest b (secs.map Section.piece) = lowest b (hs.map Phdr.piece) ∧
      highest b (secs.map Section.piece) = highest b (hs.map Phdr.piece) := by
  induction hr generalizing b with
  | nil => exact ⟨rfl, rfl⟩
  | @cons h s hs secs hhs _ ih =>
    have hstart : s.piece.start = h.piece.start := congrArg BitVec.toNat hhs.start
    have hlen : s.piece.len = h.piece.len := congrArg BitVec.toNat hhs.len
    have ht : s.piece.Touches ↔ h.piece.Touches := by
      rw [Piece.Touches, hstart, hlen]
      rfl
    have hfirst : s.piece.first = h.piece.first := by rw [Piece.first, hstart]; rfl
    have hlast : s.piece.last = h.piece.last := by rw [Piece.last, hstart, hlen]; rfl
    simp only [List.map_cons, lowest, highest, List.foldl_cons, ht, hfirst, hlast]
    exact ⟨(ih _).1, (ih _).2⟩

/-- Some section's byte, or what was there. -/
theorem overlay_cases (secs : List Section) (c : Byte) (x : ℕ) :
    (∃ s ∈ secs, (InFlash x ∧ s.piece.Covers x) ∧ overlay secs c x = s.piece.byte x) ∨
      ((∀ s ∈ secs, ¬ (InFlash x ∧ s.piece.Covers x)) ∧ overlay secs c x = c) := by
  induction secs generalizing c with
  | nil => exact Or.inr ⟨by simp, rfl⟩
  | cons s secs ih =>
    rw [overlay, List.foldl_cons]
    rcases ih (if InFlash x ∧ s.piece.Covers x then s.piece.byte x else c) with
      ⟨s', hm, hc, he⟩ | ⟨hn, he⟩
    · exact Or.inl ⟨s', List.mem_cons_of_mem _ hm, hc, he⟩
    · rw [overlay] at he
      by_cases hc : InFlash x ∧ s.piece.Covers x
      · rw [if_pos hc] at he ⊢
        exact Or.inl ⟨s, List.mem_cons_self, hc, he⟩
      · rw [if_neg hc] at he ⊢
        refine Or.inr ⟨fun s' hm => ?_, he⟩
        rcases List.mem_cons.mp hm with rfl | hm
        · exact hc
        · exact hn s' hm

/-- And some header's byte, where the file has all of it. -/
theorem overlay_of_reads {secs : List Section} {c : Byte} (hr : List.Forall₂ Reads hs secs)
    (hw : ∀ h ∈ hs, h.filesz ≤ h.memsz) :
    (∃ h ∈ hs, h.piece.Covers x ∧ overlay secs c x = h.piece.byte x) ∨
      ((∀ h ∈ hs, ¬ (InFlash x ∧ h.piece.Covers x)) ∧ overlay secs c x = c) := by
  have hcov {h : Phdr} {s : Section} (hhs : Reads h s) : s.piece.Covers x ↔ h.piece.Covers x := by
    simp only [Piece.Covers, Section.piece, Phdr.piece, hhs.start, hhs.len]
  rcases overlay_cases secs c x with ⟨s, hm, hc, hb⟩ | ⟨hn, hb⟩
  · obtain ⟨n, hn, rfl⟩ := List.getElem_of_mem hm
    have hlen := hr.length_eq
    have hread := List.Forall₂.get hr (i := n) (by omega) hn
    refine Or.inl ⟨_, List.getElem_mem _, (hcov hread).mp hc.2, hb.trans ?_⟩
    have hdata := hread.data (hw _ (List.getElem_mem _))
    simp only [List.get_eq_getElem] at hread hdata
    simp only [Piece.byte, Section.piece, Phdr.piece, hdata, hread.start]
  · refine Or.inr ⟨fun h hm hc => ?_, hb⟩
    obtain ⟨n, hn', rfl⟩ := List.getElem_of_mem hm
    have hlen := hr.length_eq
    have hread := List.Forall₂.get hr (i := n) hn' (by omega)
    exact hn _ (List.getElem_mem _) ⟨hc.1, (hcov hread).mpr hc.2⟩

end S6Soc.Zipload
