import S6Soc.TtyBus

/-! Which code an address is sent with, and where the decoder goes. -/
namespace S6Soc.TtyBus

/-- The characters an absolute code takes. -/
def absLength (addr : Word) : Nat :=
  if addr ≤ 0x3f then 2 else if addr ≤ 0xfff then 3 else if addr ≤ 0x3ffff then 4
  else if addr ≤ 0xffffff then 5 else 6

/-- The characters a difference takes; six where there is no such code. -/
def diffLength (diffaddr : Word) : Nat :=
  if diffaddr.toNat < 32 then 2 else if diffaddr.toNat < 2048 then 3
  else if diffaddr.toNat < 131072 then 4 else if diffaddr.toNat < 8388608 then 5 else 6

/-- A difference is sent: it is shorter than the absolute code. -/
def State.Relative (s : State) (a : Word) : Prop :=
  s.addrSet ∧ diffLength (s.diffaddr a) < absLength (a >>> 2)

/-- One code to its last character. -/
def Single (code : List (BitVec 6)) : Prop := code.length = codeLength (code.headD 0)

/-- What is sent is one code, and it takes the decoder to `a`. -/
structure RoundTrip (s : State) (d : Decoder) (a : Word) : Prop where
  single : Single (s.encodeAddress a)
  read : d.read ((s.encodeAddress a).map charenc) = { d with addr := a >>> 2 }

variable {s : State} {d : Decoder} {a addr diff : Word} {ptr : List (BitVec 6)}

/-- Only the raw code is longer than five characters. -/
theorem absCode_choice (hp : ptr.length ≤ 5) : absCode addr ptr =
    if ptr = [] ∨ absLength addr ≤ ptr.length then absCode addr [] else ptr := by
  by_cases hnil : ptr = []
  · rw [if_pos (Or.inl hnil), hnil]
  · unfold absCode absLength
    simp only [hnil, false_or, true_or, and_true, if_false, BitVec.le_def, BitVec.reduceToNat]
    split_ifs <;> first | rfl | omega

theorem length_diffCode (hd : diff.toNat < 2 ^ 30) :
    (diffCode diff = [] ∧ diffLength diff = 6) ∨
      (diffCode diff).length = diffLength diff ∧ 2 ≤ diffLength diff ∧ diffLength diff ≤ 5 := by
  have hint : diff.toInt = diff.toNat := BitVec.toInt_eq_toNat_of_lt (by omega)
  unfold diffCode diffLength
  rw [hint]
  split_ifs <;> first | omega | simp

theorem absLength_le (addr : Word) : absLength addr ≤ 6 := by
  unfold absLength
  split_ifs <;> decide

theorem State.diffaddr_lt (s : State) (a : Word) : (s.diffaddr a).toNat < 2 ^ 30 :=
  toNat_ushiftRight_two_lt _

theorem State.encodeAddress_relative (hr : s.Relative a) (hn : a ≠ s.lastaddr) :
    s.encodeAddress a = diffCode (s.diffaddr a) := by
  obtain ⟨hs, hlt⟩ := hr
  have habs := absLength_le (a >>> 2)
  rw [State.encodeAddress, if_neg fun c => hn c.2, if_pos hs]
  rcases length_diffCode (s.diffaddr_lt a) with ⟨-, h₆⟩ | ⟨h₁, h₂, h₃⟩
  · omega
  · rw [absCode_choice (h₁.trans_le h₃), if_neg]
    rintro (he | hle)
    · rw [he, List.length_nil] at h₁
      omega
    · omega

theorem State.encodeAddress_absolute (hr : ¬ s.Relative a) (hn : s.addrSet → a ≠ s.lastaddr) :
    s.encodeAddress a = absCode (a >>> 2) [] := by
  rw [State.encodeAddress, if_neg fun c => hn c.1 c.2]
  by_cases hs : s.addrSet
  · have hge : absLength (a >>> 2) ≤ diffLength (s.diffaddr a) :=
      Nat.le_of_not_lt fun c => hr ⟨hs, c⟩
    rw [if_pos hs]
    rcases length_diffCode (s.diffaddr_lt a) with ⟨he, -⟩ | ⟨h₁, h₂, h₃⟩
    · rw [he]
    · rw [absCode_choice (h₁.trans_le h₃), if_pos (Or.inr (hge.trans_eq h₁.symm))]
  · rw [if_neg hs]

theorem single_cons {b : BitVec 6} {bs : List (BitVec 6)} (h : bs.length + 1 = codeLength b) :
    Single (b :: bs) := h

theorem absCode_single : Single (absCode addr []) := by
  unfold absCode
  split_ifs with h₁ h₂ h₃ h₄
  · exact single_cons rfl
  · exact single_cons rfl
  · exact single_cons rfl
  · exact single_cons rfl
  · have : ∀ x : BitVec 2, codeLength (x.setWidth 6) = 6 := by decide
    exact single_cons (this _).symm
  · exact absurd rfl ‹_›

theorem absCode_moves (d : Decoder) (h : addr.toNat < 2 ^ 30) : Moves d (absCode addr []) addr := by
  rcases absCode_cases d addr [] h with hm | ⟨-, hne, -⟩
  · exact hm
  · exact absurd rfl hne

theorem diffCode_short (h : diff.toNat < 131072) :
    Single (diffCode diff) ∧ Moves d (diffCode diff) (d.addr + diff) := by
  have hint : diff.toInt = diff.toNat := BitVec.toInt_eq_toNat_of_lt (by omega)
  rcases diffCode_cases d diff (by omega) with hm | he | ⟨hl, -⟩
  · refine ⟨?_, hm⟩
    unfold diffCode
    rw [hint]
    split_ifs <;> first | exact single_cons rfl | omega
  · have hlt : diff.toNat < 2 ^ 30 := by omega
    rcases length_diffCode hlt with ⟨-, h₆⟩ | ⟨h₁, h₂, -⟩
    · unfold diffLength at h₆
      split_ifs at h₆ <;> omega
    · rw [he, List.length_nil] at h₁
      omega
  · exact absurd h (Nat.not_lt.mpr hl.1)

/-- A character that is no command by itself does not move the decoder. -/
theorem Decoder.step_addr (d : Decoder) (x : BitVec 6) (hd : d.part = []) :
    (d.step (charenc x)).addr = d.addr := by
  simp only [Decoder.step, chardec_charenc, hd, List.nil_append, List.length_nil, Nat.zero_add]
  have hread : ∀ y : BitVec 6, 1 = codeLength y →
      y.extractLsb' 3 3 ≠ 3 ∧ y.extractLsb' 3 3 ≠ 2 ∧ y.extractLsb' 3 3 ≠ 1 ∧
        y.extractLsb' 2 4 ≠ 0 := by decide
  split_ifs with h
  · obtain ⟨h₃, h₂, h₁, h₀⟩ := hread x h
    simp only [Decoder.execute, if_neg h₃, if_neg h₂, if_neg h₁, if_neg h₀]
  · rfl

/-- The long difference is read as one of four characters. -/
theorem diffCode_long (hl : LongStep diff) (hd : d.part = []) :
    (d.read ((diffCode diff).map charenc)).addr = d.addr + diff >>> 6 := by
  have hint : diff.toInt = diff.toNat := BitVec.toInt_eq_toNat_of_lt (by have := hl.2; omega)
  obtain ⟨hlo, hhi⟩ := hl
  have hcode : diffCode diff =
      0x0d :: [sixbits diff 18, sixbits diff 12, sixbits diff 6] ++ [sixbits diff 0] := by
    unfold diffCode
    rw [hint]
    split_ifs <;> first | rfl | omega
  have hsix : ∀ k, sixbits diff (k + 6) = sixbits (diff >>> 6) k := by
    intro k
    apply BitVec.eq_of_getLsbD_eq
    intro i hi
    simp [sixbits, show 6 + (k + i) = k + 6 + i by omega]
  have hlt : (diff >>> 6).toNat < 131072 := by
    rw [BitVec.toNat_ushiftRight, Nat.shiftRight_eq_div_pow]
    omega
  rw [hcode, hsix 12, hsix 6, hsix 0, List.map_append, Decoder.read_append]
  have hm : Moves d
      (0x0d :: [sixbits (diff >>> 6) 12, sixbits (diff >>> 6) 6, sixbits (diff >>> 6) 0])
      (d.addr + diff >>> 6) :=
    moves_difference rfl (by simp) rfl rfl (sixbits_sign (by omega)) (gather_three_of_lt (by omega))
  rw [hm hd]
  exact Decoder.step_addr _ _ hd

theorem absLength_le_diffLength {x y : Word} (h : x.toNat ≤ y.toNat) (hy : y.toNat < 8388608) :
    absLength x ≤ diffLength y := by
  unfold absLength diffLength
  simp only [BitVec.le_def, BitVec.reduceToNat]
  split_ifs <;> omega

theorem State.Relative.diffaddr_lt (hr : s.Relative a) : (s.diffaddr a).toNat < 8388608 := by
  have h := Nat.lt_of_lt_of_le hr.2 (absLength_le (a >>> 2))
  unfold diffLength at h
  split_ifs at h <;> omega

/-- A difference that is sent goes up; one that starts inside a word is rounded down. -/
theorem State.Relative.words (hr : s.Relative a) (ha : aligned a) :
    (a >>> 2).toNat =
      (s.lastaddr >>> 2).toNat + (s.diffaddr a).toNat + if aligned s.lastaddr then 0 else 1 := by
  have hlt := hr.diffaddr_lt
  have hsub : (s.diffaddr a).toNat = (a - s.lastaddr).toNat / 4 := by
    rw [State.diffaddr, BitVec.toNat_ushiftRight, Nat.shiftRight_eq_div_pow]
  have haddr : (a >>> 2).toNat = a.toNat / 4 := by
    rw [BitVec.toNat_ushiftRight, Nat.shiftRight_eq_div_pow]
  have hlast : (s.lastaddr >>> 2).toNat = s.lastaddr.toNat / 4 := by
    rw [BitVec.toNat_ushiftRight, Nat.shiftRight_eq_div_pow]
  have hge : (s.diffaddr a).toNat < (a >>> 2).toNat := by
    by_contra hle
    exact absurd hr.2 (Nat.not_lt.mpr (absLength_le_diffLength (Nat.le_of_not_lt hle) hlt))
  have ha' := aligned_iff.mp ha
  rw [BitVec.toNat_sub] at hsub
  have := s.lastaddr.isLt
  by_cases hal : aligned s.lastaddr
  · have := aligned_iff.mp hal
    rw [if_pos hal]
    omega
  · have : ¬ s.lastaddr.toNat % 4 = 0 := fun c => hal (aligned_iff.mpr c)
    rw [if_neg hal]
    omega

theorem round_trip_iff (hp : d.part = []) (ha : aligned a) (hn : s.addrSet → a ≠ s.lastaddr)
    (hd : s.addrSet → d.addr = s.lastaddr >>> 2) :
    RoundTrip s d a ↔
      (s.Relative a → aligned s.lastaddr ∧ (s.diffaddr a).toNat < 131072) := by
  have hlt := toNat_ushiftRight_two_lt a
  by_cases hr : s.Relative a
  · have haddr := hd hr.1
    have hwords := hr.words ha
    have hdiff := s.diffaddr_lt a
    have hlast := toNat_ushiftRight_two_lt s.lastaddr
    have hcode := s.encodeAddress_relative hr (hn hr.1)
    constructor
    · rintro ⟨-, hread⟩ -
      have hread : (d.read ((s.encodeAddress a).map charenc)).addr = a >>> 2 := by rw [hread]
      rw [hcode] at hread
      by_cases hshort : (s.diffaddr a).toNat < 131072
      · refine ⟨?_, hshort⟩
        by_contra hal
        rw [(diffCode_short hshort).2 hp, haddr, ← BitVec.toNat_inj] at hread
        rw [if_neg hal] at hwords
        simp only [BitVec.toNat_add] at hread
        omega
      · have hlong : LongStep (s.diffaddr a) := ⟨Nat.le_of_not_lt hshort, hr.diffaddr_lt⟩
        rw [diffCode_long hlong hp, haddr, ← BitVec.toNat_inj, BitVec.toNat_add,
          BitVec.toNat_ushiftRight (s.diffaddr a), Nat.shiftRight_eq_div_pow] at hread
        split_ifs at hwords <;> omega
    · intro h
      obtain ⟨hal, hshort⟩ := h hr
      obtain ⟨hsingle, hmoves⟩ := diffCode_short (d := d) hshort
      refine ⟨hcode ▸ hsingle, ?_⟩
      rw [hcode, hmoves hp, haddr]
      have : s.lastaddr >>> 2 + s.diffaddr a = a >>> 2 := by
        rw [if_pos hal] at hwords
        bv_omega
      rw [this]
  · refine ⟨fun _ h => absurd h hr, fun _ => ?_⟩
    have hcode := s.encodeAddress_absolute hr hn
    exact ⟨hcode ▸ absCode_single, hcode ▸ absCode_moves d hlt hp⟩

/-- Word `0x1000000`. -/
def far : State := ⟨true, 0x4000000, false, 0, fun _ => 0⟩

def farDecoder : Decoder := ⟨[], 0x1000000, 0, fun _ => 0, []⟩

theorem round_trip_iff_near : RoundTrip far farDecoder 0x407fffc ↔
    (far.Relative 0x407fffc → aligned far.lastaddr ∧ (far.diffaddr 0x407fffc).toNat < 131072) :=
  round_trip_iff rfl (by decide) (fun _ => by decide) (fun _ => by decide)

/-- One word further: five characters are sent, and the first stands for four. -/
theorem long_difference_misread : ¬ ∀ (s : State) (d : Decoder) (a : Word), d.part = [] →
    aligned a → (s.addrSet → a ≠ s.lastaddr) → (s.addrSet → d.addr = s.lastaddr >>> 2) →
      RoundTrip s d a := by
  intro h
  have hs := (h far farDecoder 0x4080000 rfl (by decide) (fun _ => by decide)
    (fun _ => by decide)).single
  exact absurd (show 5 = codeLength 0x0d from hs) (by decide)

end S6Soc.TtyBus
