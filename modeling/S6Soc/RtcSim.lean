import S6Soc.Calendar

/-! The clock and calendar task, `rtcsim`: time and date in packed decimal digits, brought
forward once a second. -/
namespace S6Soc.RtcSim
open Calendar

abbrev Word := BitVec 32

def rtcnext (now : Word) : Word :=
  let now := now + 1
  if 0x0a ≤ now &&& 0x0f then
    let now := now + 0x06
    if 0x050 < now &&& 0x0f0 then
      let now := now + 0x0a0
      if 0x0a00 ≤ now &&& 0x0f00 then
        let now := now + 0x0600
        if 0x05000 < now &&& 0x0f000 then
          let now := now + 0x0a000
          let now := if 0x0a0000 ≤ now &&& 0x0f0000 then now + 0x060000 else now
          if 0x0240000 ≤ now then 0 else now
        else now
      else now
    else now
  else now

/-- `days_per_month[i]`; `before` is the byte in front of the array. -/
def daysPerMonth (before : Int) (i : Int) : Int :=
  if i < 0 then before
  else [31, 28, 31, 30, 31, 30, 31, 31, 30, 31, 30, 31].getD i.toNat 0

/-- `dy`, to begin with. -/
def day (today : Word) : Nat := (today &&& 0x0f).toNat + ((today >>> 4) &&& 0x03).toNat * 10

/-- `mo`, to begin with. -/
def month (today : Word) : Nat :=
  ((today >>> 8) &&& 0x0f).toNat + if today &&& 0x0100 ≠ 0 then 10 else 0

/-- `dy` once it has been compared with the length of the month. -/
def nextDay (before : Int) (today : Word) : Nat :=
  let dy := day today + 1
  let mo := month today
  if 12 < mo ∨ daysPerMonth before (mo - 1) < dy then
    if mo = 2 then
      let tst := (if today &&& 0x0ff0000 = 0 then (today >>> 24) &&& 0x03f
        else (today >>> 20) &&& 0x0ff) &&& 0x013
      if tst = 0 ∨ tst = 0x012 then if 29 ≤ dy then 1 else dy else 1
    else 1
  else dy

/-- The year goes up by one. -/
def nextYear (today : Word) : Word :=
  let today := today + 0x010000
  if 0x0a0000 ≤ today &&& 0x0f0000 then
    let today := today + 0x060000
    if 0x0a00000 ≤ today &&& 0x0f00000 then
      let today := today + 0x0600000
      if 0x0a000000 ≤ today &&& 0x0f000000 then
        let today := today + 0x06000000
        if 0x0a0000000 ≤ today &&& 0x0f0000000 then today + 0x060000000 else today
      else today
    else today
  else today

def rtcdatenext (before : Int) (today : Word) : Word :=
  if nextDay before today = 1 then
    let mo := month today + 1
    let today := (today &&& ~~~0x0ff) ||| 1
    if 12 < mo then nextYear ((today &&& ~~~0x0ff00) ||| 0x0100) else today
  else
    let today := today + 1
    if 0x0a ≤ today &&& 0x0f then today + 0x06 else today

structure State where
  rtcclock : Word
  rtcalarm : Word
  rtcdate : Word

def SWINT_PPS : Word := 0x008000
def SWINT_PPD : Word := 0x020000
def SWINT_ALARM : Word := 0x040000

/-- One turn of the task's loop, after `SWINT_CLOCK`: the state and what is posted. -/
def State.turn (before : Int) (s : State) : State × Word :=
  let v := rtcnext s.rtcclock
  let nextevent := SWINT_PPS ||| if v = s.rtcalarm then SWINT_ALARM else 0
  if v = 0 then
    ({ s with rtcclock := v, rtcdate := rtcdatenext before s.rtcdate }, nextevent ||| SWINT_PPD)
  else ({ s with rtcclock := v }, nextevent)

def State.step (before : Int) (s : State) : State := (s.turn before).1

/-- The task shows this date and time. -/
structure State.Shows (s : State) (m : Moment) : Prop where
  clock : s.rtcclock.toNat = bcdTime m.sec
  date : s.rtcdate.toNat = m.date.bcd

variable {before : Int} {s : State} {m : Moment} {x now today : Word} {d : Date}

theorem and_mul_two_pow (x a j : Nat) : x &&& a * 2 ^ j = (x / 2 ^ j &&& a) * 2 ^ j := by
  apply Nat.eq_of_testBit_eq
  intro i
  simp only [Nat.testBit_and, Nat.testBit_mul_two_pow, Nat.testBit_div_two_pow]
  by_cases h : j ≤ i <;> simp [h]

theorem toNat_digit {a k : Nat} (ha : a < 16) (hk : k < 8) :
    (BitVec.ofNat 32 (a * 2 ^ (4 * k))).toNat = a * 2 ^ (4 * k) := by
  refine BitVec.toNat_ofNat .. |>.trans (Nat.mod_eq_of_lt ?_)
  calc a * 2 ^ (4 * k) < 2 ^ 4 * 2 ^ (4 * k) := Nat.mul_lt_mul_of_pos_right ha (Nat.two_pow_pos _)
    _ = 2 ^ (4 + 4 * k) := (pow_add ..).symm
    _ ≤ 2 ^ 32 := Nat.pow_le_pow_right (by decide) (by omega)

/-- One digit where it stands. -/
theorem toNat_and_digit (x : Word) {k : Nat} (hk : k < 8) :
    (x &&& BitVec.ofNat 32 (15 * 2 ^ (4 * k))).toNat =
      x.toNat / 2 ^ (4 * k) % 16 * 2 ^ (4 * k) := by
  rw [BitVec.toNat_and, toNat_digit (by decide) hk, and_mul_two_pow]
  exact congrArg (· * _) (Nat.and_two_pow_sub_one_eq_mod _ 4)

theorem div_digit {n c r k : Nat} (h : n = 2 ^ (4 * k) * (c + 16 * r)) (hc : c < 16) :
    n / 2 ^ (4 * k) % 16 = c := by
  rw [h, Nat.mul_div_cancel_left _ (Nat.two_pow_pos _), Nat.add_mul_mod_self_left,
    Nat.mod_eq_of_lt hc]

/-- The lowest digit that is not zero, compared with `a`. -/
theorem digit_le {c : Nat} (a k r : Nat) (h : x.toNat = 2 ^ (4 * k) * (c + 16 * r)) (ha : a < 16)
    (hc : c < 16) (hk : k < 8) :
    BitVec.ofNat 32 (a * 2 ^ (4 * k)) ≤ x &&& BitVec.ofNat 32 (15 * 2 ^ (4 * k)) ↔ a ≤ c := by
  rw [BitVec.le_def, toNat_and_digit x hk, toNat_digit ha hk, div_digit h hc]
  exact Nat.mul_le_mul_right_iff (Nat.two_pow_pos _)

theorem digit_lt {c : Nat} (a k r : Nat) (h : x.toNat = 2 ^ (4 * k) * (c + 16 * r)) (ha : a < 16)
    (hc : c < 16) (hk : k < 8) :
    BitVec.ofNat 32 (a * 2 ^ (4 * k)) < x &&& BitVec.ofNat 32 (15 * 2 ^ (4 * k)) ↔ a < c := by
  rw [BitVec.lt_def, toNat_and_digit x hk, toNat_digit ha hk, div_digit h hc]
  exact Nat.mul_lt_mul_right (Nat.two_pow_pos _)

theorem toNat_add_ofNat (x : Word) (c : Nat) (h : x.toNat + c < 2 ^ 32) :
    (x + BitVec.ofNat 32 c).toNat = x.toNat + c := by
  rw [BitVec.toNat_add, BitVec.toNat_ofNat, Nat.add_mod_mod, Nat.mod_eq_of_lt h]

/-- Each digit that runs over is put right, with a carry into the next. -/
theorem rtcnext_digits {s₀ s₁ m₀ m₁ h₀ h₁ : Nat}
    (h : now.toNat = s₀ + 16 * (s₁ + 16 * (m₀ + 16 * (m₁ + 16 * (h₀ + 16 * h₁)))))
    (hs₀ : s₀ < 10) (hs₁ : s₁ < 6) (hm₀ : m₀ < 10) (hm₁ : m₁ < 6) (hh₀ : h₀ < 10)
    (hh : h₀ + 10 * h₁ < 24) : (rtcnext now).toNat =
      if s₀ < 9 then now.toNat + 1
      else if s₁ < 5 then now.toNat + 7
      else if m₀ < 9 then now.toNat + 0xa7
      else if m₁ < 5 then now.toNat + 0x6a7
      else if h₀ + 10 * h₁ = 23 then 0
      else if h₀ < 9 then now.toNat + 0xa6a7
      else now.toNat + 0x6a6a7 := by
  unfold rtcnext
  dsimp only
  generalize hx₁ : now + 1 = x₁
  generalize hx₂ : x₁ + 0x06 = x₂
  generalize hx₃ : x₂ + 0x0a0 = x₃
  generalize hx₄ : x₃ + 0x0600 = x₄
  generalize hx₅ : x₄ + 0x0a000 = x₅
  generalize hx₆ : x₅ + 0x060000 = x₆
  have h₁' : x₁.toNat = now.toNat + 1 := hx₁ ▸ toNat_add_ofNat now 1 (by omega)
  have h₂' : x₂.toNat = now.toNat + 7 := hx₂ ▸ (toNat_add_ofNat x₁ 6 (by omega)).trans (by omega)
  have h₃' : x₃.toNat = now.toNat + 0xa7 :=
    hx₃ ▸ (toNat_add_ofNat x₂ 0xa0 (by omega)).trans (by omega)
  have h₄' : x₄.toNat = now.toNat + 0x6a7 :=
    hx₄ ▸ (toNat_add_ofNat x₃ 0x600 (by omega)).trans (by omega)
  have h₅' : x₅.toNat = now.toNat + 0xa6a7 :=
    hx₅ ▸ (toNat_add_ofNat x₄ 0xa000 (by omega)).trans (by omega)
  have h₆' : x₆.toNat = now.toNat + 0x6a6a7 :=
    hx₆ ▸ (toNat_add_ofNat x₅ 0x60000 (by omega)).trans (by omega)
  clear hx₁ hx₂ hx₃ hx₄ hx₅ hx₆
  have c₁ : (0x0a : Word) ≤ x₁ &&& 0x0f ↔ 10 ≤ s₀ + 1 :=
    digit_le 10 0 (s₁ + 16 * (m₀ + 16 * (m₁ + 16 * (h₀ + 16 * h₁)))) (h₁'.trans (by omega))
      (by decide) (by omega) (by decide)
  by_cases d₁ : s₀ < 9
  · rw [if_pos d₁, if_neg (mt c₁.1 (by omega))]
    exact h₁'
  rw [if_neg d₁, if_pos (c₁.2 (by omega))]
  clear c₁
  have c₂ : (0x050 : Word) < x₂ &&& 0x0f0 ↔ 5 < s₁ + 1 :=
    digit_lt 5 1 (m₀ + 16 * (m₁ + 16 * (h₀ + 16 * h₁))) (h₂'.trans (by omega))
      (by decide) (by omega) (by decide)
  by_cases d₂ : s₁ < 5
  · rw [if_pos d₂, if_neg (mt c₂.1 (by omega))]
    exact h₂'
  rw [if_neg d₂, if_pos (c₂.2 (by omega))]
  clear c₂
  have c₃ : (0x0a00 : Word) ≤ x₃ &&& 0x0f00 ↔ 10 ≤ m₀ + 1 :=
    digit_le 10 2 (m₁ + 16 * (h₀ + 16 * h₁)) (h₃'.trans (by omega))
      (by decide) (by omega) (by decide)
  by_cases d₃ : m₀ < 9
  · rw [if_pos d₃, if_neg (mt c₃.1 (by omega))]
    exact h₃'
  rw [if_neg d₃, if_pos (c₃.2 (by omega))]
  clear c₃
  have c₄ : (0x05000 : Word) < x₄ &&& 0x0f000 ↔ 5 < m₁ + 1 :=
    digit_lt 5 3 (h₀ + 16 * h₁) (h₄'.trans (by omega))
      (by decide) (by omega) (by decide)
  by_cases d₄ : m₁ < 5
  · rw [if_pos d₄, if_neg (mt c₄.1 (by omega))]
    exact h₄'
  rw [if_neg d₄, if_pos (c₄.2 (by omega))]
  clear c₄
  have c₅ : (0x0a0000 : Word) ≤ x₅ &&& 0x0f0000 ↔ 10 ≤ h₀ + 1 :=
    digit_le 10 4 h₁ (h₅'.trans (by omega)) (by decide) (by omega) (by decide)
  have midnight (y : Word) : (if (0x0240000 : Word) ≤ y then (0 : Word) else y).toNat =
      if 0x240000 ≤ y.toNat then 0 else y.toNat := by
    by_cases hy : 0x240000 ≤ y.toNat
    · rw [if_pos hy, if_pos (show (0x0240000 : Word) ≤ y from hy)]
      rfl
    · rw [if_neg hy, if_neg (show ¬ (0x0240000 : Word) ≤ y from hy)]
  rw [midnight]
  by_cases d₅ : h₀ < 9
  · rw [if_neg (mt c₅.1 (by omega)), h₅', if_pos d₅]
    clear c₅ midnight
    by_cases hlast : h₀ + 10 * h₁ = 23
    · rw [if_pos hlast, if_pos (by omega)]
    · rw [if_neg hlast, if_neg (by omega)]
  · rw [if_pos (c₅.2 (by omega)), h₆', if_neg d₅]
    clear c₅ midnight
    rw [if_neg (by omega), if_neg (by omega)]

theorem bcdTime_digits {s m h : Nat} (hs : s < 60) (hm : m < 60) (hh : h < 24) :
    bcdTime (s + 60 * m + 3600 * h) =
      s % 10 + 16 * (s / 10 + 16 * (m % 10 + 16 * (m / 10 + 16 * (h % 10 + 16 * (h / 10))))) := by
  unfold bcdTime
  rw [show (s + 60 * m + 3600 * h) / 3600 = h by omega,
    show (s + 60 * m + 3600 * h) / 60 % 60 = m by omega,
    show (s + 60 * m + 3600 * h) % 60 = s by omega, bcd_two, bcd_two, bcd_two]
  omega

/-- The time of day goes up by a second, and after the last one starts again. -/
theorem rtcnext_toNat {sec : Nat} (hn : now.toNat = bcdTime sec) (hs : sec < 86400) :
    (rtcnext now).toNat = bcdTime ((sec + 1) % 86400) := by
  obtain ⟨s, m, h, hs60, hm60, hh24, rfl⟩ :
      ∃ s m h, s < 60 ∧ m < 60 ∧ h < 24 ∧ sec = s + 60 * m + 3600 * h :=
    ⟨sec % 60, sec / 60 % 60, sec / 3600, by omega, by omega, by omega, by omega⟩
  rw [bcdTime_digits hs60 hm60 hh24] at hn
  rw [rtcnext_digits hn (by omega) (by omega) (by omega) (by omega) (by omega) (by omega), hn]
  by_cases hs59 : s < 59
  · -- within the minute
    rw [show (s + 60 * m + 3600 * h + 1) % 86400 = (s + 1) + 60 * m + 3600 * h by omega,
      bcdTime_digits (by omega) hm60 hh24]
    by_cases d : s % 10 < 9
    · rw [if_pos d]
      omega
    · rw [if_neg d, if_pos (by omega)]
      omega
  rw [if_neg (by omega), if_neg (by omega)]
  by_cases hm59 : m < 59
  · rw [show (s + 60 * m + 3600 * h + 1) % 86400 = 0 + 60 * (m + 1) + 3600 * h by omega,
      bcdTime_digits (by decide) (by omega) hh24]
    by_cases d : m % 10 < 9
    · rw [if_pos d]
      omega
    · rw [if_neg d, if_pos (by omega)]
      omega
  rw [if_neg (by omega), if_neg (by omega)]
  by_cases hh23 : h < 23
  · rw [show (s + 60 * m + 3600 * h + 1) % 86400 = 0 + 60 * 0 + 3600 * (h + 1) by omega,
      bcdTime_digits (by decide) (by decide) (by omega), if_neg (by omega)]
    by_cases d : h % 10 < 9
    · rw [if_pos d]
      omega
    · rw [if_neg d]
      omega
  · rw [if_pos (by omega), show (s + 60 * m + 3600 * h + 1) % 86400 = 0 by omega]
    rfl

theorem bcdTime_eq_zero {sec : Nat} (hs : sec < 86400) : bcdTime sec = 0 ↔ sec = 0 := by
  unfold bcdTime
  simp only [bcd_two]
  omega

/-- The month as the task takes it: ten more if it is odd, and no tens from its own digit. -/
def misread (month : Nat) : Nat := month % 10 + if month % 2 = 1 then 10 else 0

/-- The low half of a date. -/
theorem Date.bcd_mod (d : Date) :
    d.bcd % 65536 = Calendar.bcd 2 d.month * 256 + Calendar.bcd 2 d.day := by
  have hm := Calendar.bcd_lt 2 d.month
  have hd := Calendar.bcd_lt 2 d.day
  unfold Date.bcd
  omega

/-- The digits of the day and the month. -/
theorem toNat_date (h : today.toNat = d.bcd) :
    today.toNat / 16 = today.toNat / 256 * 16 + d.day / 10 ∧ today.toNat % 16 = d.day % 10 ∧
      today.toNat / 256 % 256 = d.month % 10 + 16 * (d.month / 10) := by
  have hday := d.day_le.trans (monthLength_le ..)
  have hmonth := d.month_le
  have hmod := Date.bcd_mod d
  rw [← h, bcd_two, bcd_two, Nat.mod_eq_of_lt (show d.month / 10 < 10 by omega),
    Nat.mod_eq_of_lt (show d.day / 10 < 10 by omega)] at hmod
  have htens : d.day % 10 + 16 * (d.day / 10) < 256 := by omega
  have h256 : today.toNat / 256 =
      today.toNat / 65536 * 256 + (d.month % 10 + 16 * (d.month / 10)) := by omega
  have hlow : today.toNat % 256 = d.day % 10 + 16 * (d.day / 10) := by omega
  refine ⟨by omega, by omega, ?_⟩
  rw [h256, Nat.mul_comm, Nat.mul_add_mod_self_left]
  exact Nat.mod_eq_of_lt (by omega)

theorem day_eq (h : today.toNat = d.bcd) : day today = d.day := by
  obtain ⟨h₁, h₀, -⟩ := toNat_date h
  have hlow : (today &&& 0x0f).toNat = today.toNat % 16 := Nat.and_two_pow_sub_one_eq_mod _ 4
  have htens : (today >>> 4 &&& 0x03).toNat = today.toNat / 16 % 4 := by
    rw [BitVec.toNat_and, BitVec.toNat_ushiftRight, Nat.shiftRight_eq_div_pow]
    exact Nat.and_two_pow_sub_one_eq_mod _ 2
  have := d.day_le.trans (monthLength_le ..)
  unfold day
  omega

theorem month_eq (h : today.toNat = d.bcd) : month today = misread d.month := by
  obtain ⟨-, -, hmon⟩ := toNat_date h
  have hlow : (today >>> 8 &&& 0x0f).toNat = today.toNat / 256 % 16 := by
    rw [BitVec.toNat_and, BitVec.toNat_ushiftRight, Nat.shiftRight_eq_div_pow]
    exact Nat.and_two_pow_sub_one_eq_mod _ 4
  have hodd : today &&& 0x0100 ≠ 0 ↔ d.month % 2 = 1 := by
    have hbit : (today &&& 0x0100).toNat = today.toNat / 256 % 2 * 256 := by
      rw [BitVec.toNat_and]
      refine (and_mul_two_pow _ 1 8).trans (congrArg (· * _) ?_)
      exact Nat.and_two_pow_sub_one_eq_mod _ 1
    rw [Ne, ← BitVec.toNat_inj, hbit]
    change ¬ _ = 0 ↔ _
    omega
  unfold month misread
  rw [if_congr hodd rfl rfl, hlow]
  have := d.month_le
  omega

/-- The task takes this for the last day of the month. -/
def Resets (before : Int) (month day : Nat) : Prop :=
  12 < misread month ∨ daysPerMonth before (misread month - 1) < (day + 1 : Nat)

instance (before : Int) (month day : Nat) : Decidable (Resets before month day) := by
  unfold Resets
  infer_instance

theorem nextDay_eq (h : today.toNat = d.bcd) :
    nextDay before today = if Resets before d.month d.day then 1 else d.day + 1 := by
  unfold nextDay
  rw [day_eq h, month_eq h]
  dsimp only
  by_cases hr : Resets before d.month d.day
  · rw [if_pos hr, if_pos (show _ ∨ _ from hr)]
    by_cases hfeb : misread d.month = 2
    · -- a leap year makes no difference
      have hlen : 29 ≤ d.day + 1 := by
        unfold Resets at hr
        rw [hfeb] at hr
        obtain hr | hr := hr
        · exact absurd hr (by decide)
        · change (28 : Int) < _ at hr
          omega
      rw [if_pos hfeb, if_pos hlen, ite_self]
    · rw [if_neg hfeb]
  · rw [if_neg hr, if_neg (show ¬ (_ ∨ _) from hr)]

theorem toNat_append_eq {v w : Nat} (x : BitVec v) (y : BitVec w) :
    (x ++ y).toNat = x.toNat * 2 ^ w + y.toNat := by
  rw [BitVec.toNat_append, ← Nat.shiftLeft_add_eq_or_of_lt y.isLt, Nat.shiftLeft_eq]

/-- The day is put to one. -/
theorem toNat_firstDay (x : Word) :
    ((x &&& ~~~0x0ff) ||| 1).toNat = x.toNat / 256 * 256 + 1 := by
  have hbits : (x &&& ~~~0x0ff) ||| 1 = x.extractLsb' 8 24 ++ (1 : BitVec 8) := by
    refine BitVec.eq_of_getLsbD_eq fun i hi => ?_
    rw [BitVec.getLsbD_append]
    interval_cases i <;> simp
  rw [hbits, toNat_append_eq, BitVec.extractLsb'_toNat, Nat.shiftRight_eq_div_pow]
  change x.toNat / 256 % 16777216 * 256 + 1 = _
  omega

/-- The month is put to one. -/
theorem toNat_firstMonth_mod (x : Word) :
    ((x &&& ~~~0x0ff00) ||| 0x0100).toNat % 65536 = 256 + x.toNat % 256 := by
  have hbits : (x &&& ~~~0x0ff00) ||| 0x0100 =
      x.extractLsb' 16 16 ++ (1 : BitVec 8) ++ x.extractLsb' 0 8 := by
    refine BitVec.eq_of_getLsbD_eq fun i hi => ?_
    rw [BitVec.getLsbD_append, BitVec.getLsbD_append]
    interval_cases i <;> simp
  have hlow : (x.extractLsb' 0 8).toNat = x.toNat % 256 := by simp
  rw [hbits, toNat_append_eq, toNat_append_eq, hlow]
  change ((_ * 256 + 1) * 256 + x.toNat % 256) % 65536 = _
  omega

theorem toNat_add_mod {c : Word} (x : Word) (hc : c.toNat % 65536 = 0) :
    (x + c).toNat % 65536 = x.toNat % 65536 := by
  rw [BitVec.toNat_add]
  omega

theorem nextYear_mod (x : Word) : (nextYear x).toNat % 65536 = x.toNat % 65536 := by
  have h₁ := toNat_add_mod (c := 0x010000) x (by decide)
  have h₂ := (toNat_add_mod (c := 0x060000) _ (by decide)).trans h₁
  have h₃ := (toNat_add_mod (c := 0x0600000) _ (by decide)).trans h₂
  have h₄ := (toNat_add_mod (c := 0x06000000) _ (by decide)).trans h₃
  have h₅ := (toNat_add_mod (c := 0x060000000) _ (by decide)).trans h₄
  unfold nextYear
  dsimp only
  split_ifs
  · exact h₅
  · exact h₄
  · exact h₃
  · exact h₂
  · exact h₁

/-- The first of the same month, or, if the month is taken for the last, of January. -/
theorem reset_mod (h : today.toNat = d.bcd) (hr : Resets before d.month d.day) :
    (rtcdatenext before today).toNat % 65536 =
      if 12 < misread d.month + 1 then 257 else Calendar.bcd 2 d.month * 256 + 1 := by
  obtain ⟨-, -, hmon⟩ := toNat_date h
  have hm10 : d.month / 10 % 10 = d.month / 10 := by
    have := d.month_le
    omega
  unfold rtcdatenext
  rw [if_pos ((nextDay_eq h).trans (if_pos hr)), month_eq h]
  dsimp only
  split_ifs with hlast
  · rw [nextYear_mod, toNat_firstMonth_mod, toNat_firstDay]
    omega
  · rw [toNat_firstDay, bcd_two, hm10]
    omega

/-- The next day of the month. -/
theorem counted_toNat (h : today.toNat = d.bcd) (hr : ¬ Resets before d.month d.day) :
    (rtcdatenext before today).toNat + Calendar.bcd 2 d.day =
      d.bcd + Calendar.bcd 2 (d.day + 1) := by
  obtain ⟨-, hlow, -⟩ := toNat_date h
  have hpos := d.day_pos
  have hday := d.day_le.trans (monthLength_le ..)
  have hnext : nextDay before today ≠ 1 := by
    rw [nextDay_eq h, if_neg hr]
    omega
  have hlt : today.toNat % 65536 + 7 < 65536 := by
    have hm := d.month_le
    rw [h, Date.bcd_mod, bcd_two, bcd_two]
    omega
  have hone : (today + 1).toNat = today.toNat + 1 := toNat_add_ofNat today 1 (by omega)
  have hdigit : (0x0a : Word) ≤ (today + 1) &&& 0x0f ↔ 10 ≤ d.day % 10 + 1 :=
    digit_le 10 0 (today.toNat / 16) (hone.trans (by omega)) (by decide) (by omega) (by decide)
  unfold rtcdatenext
  rw [if_neg hnext, ← h, bcd_two, bcd_two]
  dsimp only
  by_cases hten : 10 ≤ d.day % 10 + 1
  · have hseven : (today + 1 + 0x06).toNat = (today + 1).toNat + 6 :=
      toNat_add_ofNat (today + 1) 6 (by omega)
    rw [if_pos (hdigit.2 hten), hseven, hone]
    clear hdigit
    omega
  · rw [if_neg (mt hdigit.1 hten), hone]
    clear hdigit
    omega

/-- The days whose midnight the task gets right: none in March, May, July and September,
and no day from which the month ends. -/
def Counted (before : Int) (month day : Nat) : Prop :=
  (month = 1 ∨ month = 4 ∨ month = 6 ∨ month = 11) ∧ day ≤ 29 ∨
    (month = 2 ∨ month = 12) ∧ day ≤ 27 ∨
    month = 8 ∧ day ≤ 30 ∨
    month = 10 ∧ day ≤ 30 ∧ day < before

theorem counted_iff (d : Date) : Counted before d.month d.day ↔
    ¬ Resets before d.month d.day ∧ d.day < monthLength d.year d.month := by
  have hpos := d.month_pos
  have hle := d.month_le
  have hday := d.day_le
  revert hday
  generalize d.month = month at *
  generalize d.day = day
  intro hday
  unfold Counted Resets
  unfold monthLength at *
  cases leap d.year <;> interval_cases month <;> simp [misread, daysPerMonth] at hday ⊢ <;> omega

theorem Date.bcd_mod_day (d : Date) : d.bcd % 256 = Calendar.bcd 2 d.day := by
  have hmod := Date.bcd_mod d
  have hlt := Calendar.bcd_lt 2 d.day
  omega

/-- Where the next day is not of the same month, it is a first. -/
theorem tomorrow_day (hlast : ¬ d.day < monthLength d.year d.month) : d.tomorrow.day = 1 := by
  unfold Date.tomorrow
  rw [dif_neg hlast]
  split_ifs <;> rfl

/-- A first of the same month, or of January, is never what follows. -/
theorem reset_ne (h : today.toNat = d.bcd) (hr : Resets before d.month d.day) :
    (rtcdatenext before today).toNat ≠ d.tomorrow.bcd := by
  intro heq
  have hle := d.month_le
  have hpos := d.month_pos
  have hmod : (rtcdatenext before today).toNat % 65536 = d.tomorrow.bcd % 65536 :=
    congrArg (· % 65536) heq
  rw [reset_mod h hr, Date.bcd_mod] at hmod
  by_cases hlt : d.day < monthLength d.year d.month
  · have hday : d.tomorrow.day = d.day + 1 := by
      unfold Date.tomorrow
      rw [dif_pos hlt]
    have := d.day_pos
    have := d.day_le.trans (monthLength_le ..)
    rw [hday, bcd_two (d.day + 1)] at hmod
    split_ifs at hmod <;> omega
  · have hmonth : d.tomorrow.month = if d.month < 12 then d.month + 1 else 1 := by
      unfold Date.tomorrow
      rw [dif_neg hlt]
      split_ifs <;> rfl
    rw [tomorrow_day hlt, hmonth] at hmod
    simp only [bcd_two] at hmod
    unfold misread at hmod
    split_ifs at hmod <;> omega

/-- The task finds the day after exactly where it counts on within a month. -/
theorem rtcdatenext_iff (before : Int) (h : today.toNat = d.bcd) :
    (rtcdatenext before today).toNat = d.tomorrow.bcd ↔ Counted before d.month d.day := by
  rw [counted_iff d]
  constructor
  · intro heq
    have hr : ¬ Resets before d.month d.day := fun hr => reset_ne h hr heq
    refine ⟨hr, ?_⟩
    by_contra hlast
    have hnext := counted_toNat h hr
    have htoday := Date.bcd_mod_day d
    have htomorrow := Date.bcd_mod_day d.tomorrow
    have := d.day_pos
    have := d.day_le.trans (monthLength_le ..)
    rw [tomorrow_day hlast] at htomorrow
    rw [heq] at hnext
    simp only [bcd_two] at hnext htoday htomorrow
    omega
  · rintro ⟨hr, hlt⟩
    have hnext := counted_toNat h hr
    unfold Date.tomorrow
    rw [dif_pos hlt]
    unfold Date.bcd at hnext ⊢
    dsimp only
    omega

theorem turn_date (before : Int) (s : State) : (s.step before).rtcclock = rtcnext s.rtcclock ∧
    (s.step before).rtcdate =
      if rtcnext s.rtcclock = 0 then rtcdatenext before s.rtcdate else s.rtcdate := by
  unfold State.step State.turn
  dsimp only
  split_ifs <;> exact ⟨rfl, rfl⟩

/-- One second: right, but for the midnights that are not. -/
theorem State.Shows.step_iff (before : Int) (h : s.Shows m) :
    (s.step before).Shows m.next ↔ (m.Last → Counted before m.date.month m.date.day) := by
  have hlt := m.sec_lt
  have hclock := rtcnext_toNat h.clock hlt
  have hzero : rtcnext s.rtcclock = 0 ↔ m.Last := by
    rw [← BitVec.toNat_inj, hclock]
    refine (bcdTime_eq_zero (Nat.mod_lt _ (by decide))).trans ?_
    unfold Moment.Last
    omega
  obtain ⟨hc, hd⟩ := turn_date before s
  have hshown : (s.step before).rtcclock.toNat = bcdTime m.next.sec := by
    rw [hc, hclock, m.next_sec]
  by_cases hlast : m.Last
  · rw [if_pos (hzero.2 hlast)] at hd
    have hdate : m.next.date = m.date.tomorrow := by
      unfold Moment.Last at hlast
      rw [m.next_date, if_neg (by omega)]
    have hright := rtcdatenext_iff before h.date
    rw [← hdate, ← hd] at hright
    exact ⟨fun hs _ => hright.1 hs.date, fun hs => ⟨hshown, hright.2 (hs hlast)⟩⟩
  · rw [if_neg (mt hzero.1 hlast)] at hd
    have hdate : m.next.date = m.date := by
      unfold Moment.Last at hlast
      rw [m.next_date, if_pos (by omega)]
    exact ⟨fun _ hl => absurd hl hlast, fun _ => ⟨hshown, by rw [hd, hdate]; exact h.date⟩⟩

/-- Every second up to `n` is shown right exactly if every midnight among them is one the
task gets right. -/
theorem State.Shows.later_iff (before : Int) (h : s.Shows m) (n : Nat) :
    (∀ k ≤ n, ((State.step before)^[k] s).Shows (m.later k)) ↔
      ∀ k < n, (m.later k).Last → Counted before (m.later k).date.month (m.later k).date.day := by
  induction n with
  | zero =>
    refine ⟨fun _ k hk => absurd hk (Nat.not_lt_zero k), fun _ k hk => ?_⟩
    obtain rfl := Nat.le_zero.1 hk
    exact h
  | succ n ih =>
    constructor
    · intro hall k hk
      have hstep := hall (k + 1) hk
      rw [Function.iterate_succ_apply', Moment.later_succ] at hstep
      exact (State.Shows.step_iff before (hall k (by omega))).1 hstep
    · intro hall k hk
      have hbefore := ih.2 fun j hj => hall j (by omega)
      rcases Nat.lt_or_ge k (n + 1) with hlt | hge
      · exact hbefore k (by omega)
      · obtain rfl : k = n + 1 := by omega
        rw [Function.iterate_succ_apply', Moment.later_succ]
        exact (State.Shows.step_iff before (hbefore n (Nat.le_refl n))).2 (hall n (by omega))

def eighthOfApril : Date := ⟨2017, 4, 8, by decide, by decide, by decide, by decide⟩

/-- The last second of the day. -/
def lastSecond : Moment := ⟨eighthOfApril, 86399, by decide⟩

/-- Two seconds, with midnight between them and the start. -/
theorem later_iff_midnight : lastSecond.Last ∧
    ∀ k ≤ 2, ((State.step 0)^[k] ⟨0x235959, 0, 0x20170408⟩).Shows (lastSecond.later k) := by
  refine ⟨rfl, (State.Shows.later_iff 0 ⟨by decide, by decide⟩ 2).mpr fun k hk _ => ?_⟩
  obtain rfl | rfl : k = 0 ∨ k = 1 := by omega
  · exact Or.inl ⟨Or.inr (Or.inl (by decide)), by decide⟩
  · exact Or.inl ⟨Or.inr (Or.inl (by decide)), by decide⟩

def endOfApril : Date := ⟨2017, 4, 30, by decide, by decide, by decide, by decide⟩

/-- The 30th of April is followed by the first. -/
theorem endOfApril_wrong : ¬ ∀ (before : Int) (s : State) (m : Moment) (n : Nat), s.Shows m →
    ((State.step before)^[n] s).Shows (m.later n) := by
  intro h
  have hdate := (h 0 ⟨0x235959, 0, 0x20170430⟩ ⟨endOfApril, 86399, by decide⟩ 1
    ⟨by decide, by decide⟩).date
  exact absurd hdate (by decide)

end S6Soc.RtcSim
