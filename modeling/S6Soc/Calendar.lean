import Mathlib

/-! The Gregorian calendar by seconds, and numbers packed four bits to the decimal digit. -/
namespace S6Soc.Calendar

def leap (year : ℕ) : Bool := year % 4 = 0 && (year % 100 ≠ 0 || year % 400 = 0)

def monthLength (year month : ℕ) : ℕ :=
  if month = 2 then if leap year then 29 else 28
  else if month = 4 ∨ month = 6 ∨ month = 9 ∨ month = 11 then 30
  else 31

structure Date where
  year : ℕ
  month : ℕ
  day : ℕ
  month_pos : 0 < month
  month_le : month ≤ 12
  day_pos : 0 < day
  day_le : day ≤ monthLength year month

theorem monthLength_pos (year month : ℕ) : 0 < monthLength year month := by
  unfold monthLength
  split_ifs <;> omega

theorem monthLength_le (year month : ℕ) : monthLength year month ≤ 31 := by
  unfold monthLength
  split_ifs <;> omega

def Date.tomorrow (d : Date) : Date :=
  if h : d.day < monthLength d.year d.month then
    { d with day := d.day + 1, day_pos := Nat.succ_pos _, day_le := h }
  else if hm : d.month < 12 then
    ⟨d.year, d.month + 1, 1, Nat.succ_pos _, hm, Nat.one_pos, monthLength_pos ..⟩
  else ⟨d.year + 1, 1, 1, Nat.one_pos, by decide, Nat.one_pos, monthLength_pos ..⟩

/-- A second of a day. -/
structure Moment where
  date : Date
  sec : ℕ
  sec_lt : sec < 86400

/-- One second later. -/
def Moment.next (m : Moment) : Moment :=
  if h : m.sec + 1 < 86400 then { m with sec := m.sec + 1, sec_lt := h }
  else ⟨m.date.tomorrow, 0, by decide⟩

/-- `n` seconds later. -/
def Moment.later (m : Moment) (n : ℕ) : Moment := Moment.next^[n] m

theorem Moment.later_succ (m : Moment) (n : ℕ) : m.later (n + 1) = (m.later n).next :=
  Function.iterate_succ_apply' ..

/-- The second before midnight. -/
def Moment.Last (m : Moment) : Prop := m.sec = 86399

theorem Moment.next_sec (m : Moment) : m.next.sec = (m.sec + 1) % 86400 := by
  have := m.sec_lt
  unfold Moment.next
  split
  · exact (Nat.mod_eq_of_lt ‹_›).symm
  · have : m.sec + 1 = 86400 := by omega
    rw [this]

theorem Moment.next_date (m : Moment) :
    m.next.date = if m.sec + 1 < 86400 then m.date else m.date.tomorrow := by
  unfold Moment.next
  split_ifs <;> rfl

/-- The days and the seconds that are left. -/
theorem Moment.later_eq (m : Moment) (n : ℕ) :
    (m.later n).date = Date.tomorrow^[(m.sec + n) / 86400] m.date ∧
      (m.later n).sec = (m.sec + n) % 86400 := by
  have hlt := m.sec_lt
  induction n with
  | zero =>
    rw [Nat.add_zero, Nat.div_eq_of_lt hlt, Nat.mod_eq_of_lt hlt]
    exact ⟨rfl, rfl⟩
  | succ n ih =>
    obtain ⟨hd, hs⟩ := ih
    rw [later_succ, next_sec, next_date, hd, hs]
    refine ⟨?_, by omega⟩
    split_ifs with h
    · rw [show (m.sec + (n + 1)) / 86400 = (m.sec + n) / 86400 by omega]
    · rw [show (m.sec + (n + 1)) / 86400 = (m.sec + n) / 86400 + 1 by omega,
        Function.iterate_succ_apply']

/-- The last `k` decimal digits of `n`. -/
def bcd : ℕ → ℕ → ℕ
  | 0, _ => 0
  | k + 1, n => n % 10 + 16 * bcd k (n / 10)

theorem bcd_lt (k n : ℕ) : bcd k n < 16 ^ k := by
  induction k generalizing n with
  | zero => exact Nat.one_pos
  | succ k ih =>
    have := ih (n / 10)
    rw [bcd, pow_succ]
    omega

theorem bcd_two (n : ℕ) : bcd 2 n = n % 10 + 16 * (n / 10 % 10) := by
  simp [bcd]

def Date.bcd (d : Date) : ℕ :=
  Calendar.bcd 4 d.year * 2 ^ 16 + Calendar.bcd 2 d.month * 2 ^ 8 + Calendar.bcd 2 d.day

/-- Hours, minutes and seconds. -/
def bcdTime (sec : ℕ) : ℕ :=
  bcd 2 (sec / 3600) * 2 ^ 16 + bcd 2 (sec / 60 % 60) * 2 ^ 8 + bcd 2 (sec % 60)

theorem Date.bcd_lt (d : Date) : d.bcd < 2 ^ 32 := by
  have hy := Calendar.bcd_lt 4 d.year
  have hm := Calendar.bcd_lt 2 d.month
  have hd := Calendar.bcd_lt 2 d.day
  unfold Date.bcd
  omega

end S6Soc.Calendar
