import FilterQuery.Time.Timestamp
set_option autoImplicit false

/-!
The calendar: the date of a day number is valid, and the day number of that date is the one it came
from. Years are counted from March within an era of 400 years, and a day within its era is cut into
centuries, runs of four years, years and a day of the year.
-/

namespace FilterQuery

namespace Date

/-- The year of a day, both within an era. -/
def yearOfEra (e : Nat) : Nat := (e - e / 1460 + e / 36524 - e / 146096) / 365

def daysBefore (y : Nat) : Nat := 365 * y + y / 4 - y / 100

/-- A day of an era as century, run of four years, year and day. Only a year that ends with a leap
day has a day 365. -/
structure EraDay where
  century : Nat
  quad : Nat
  year : Nat
  day : Nat
  century_le : century ≤ 3
  quad_le : quad ≤ 24
  year_le : year ≤ 3
  day_le : day ≤ 365
  leap : day = 365 → year = 3 ∧ (quad < 24 ∨ century = 3)

namespace EraDay

def number (d : EraDay) : Nat := 36524 * d.century + 1461 * d.quad + 365 * d.year + d.day

def yearNumber (d : EraDay) : Nat := 100 * d.century + 4 * d.quad + d.year

theorem exists_number {e : Nat} (h : e < 146097) : ∃ d : EraDay, d.number = e := by
  have hcentury : ∃ c r, e = 36524 * c + r ∧ c ≤ 3 ∧ (r < 36524 ∨ (r = 36524 ∧ c = 3)) := by
    by_cases he : e = 146096
    · exact ⟨3, 36524, by omega, by omega, .inr ⟨rfl, rfl⟩⟩
    · exact ⟨e / 36524, e % 36524, by omega, by omega, by omega⟩
  obtain ⟨c, r, rfl, hc, hr⟩ := hcentury
  have hyear : ∃ y d, r % 1461 = 365 * y + d ∧ y ≤ 3 ∧ (d < 365 ∨ (d = 365 ∧ y = 3)) := by
    by_cases he : r % 1461 = 1460
    · exact ⟨3, 365, by omega, by omega, .inr ⟨rfl, rfl⟩⟩
    · exact ⟨r % 1461 / 365, r % 1461 % 365, by omega, by omega, by omega⟩
  obtain ⟨y, d, hrest, hy, hd⟩ := hyear
  refine ⟨⟨c, r / 1461, y, d, hc, by omega, hy, by omega, by omega⟩, ?_⟩
  simp only [number]
  omega

theorem yearOfEra_number (d : EraDay) : yearOfEra d.number = d.yearNumber := by
  obtain ⟨c, q, y, d, hc, hq, hy, hd, hleap⟩ := d
  simp only [number, yearNumber, yearOfEra]
  have hyears : (36524 * c + 1461 * q + 365 * y + d) / 1460 =
      25 * c + q + (24 * c + q + 365 * y + d) / 1460 := by omega
  have hcenturies : (36524 * c + 1461 * q + 365 * y + d) / 36524 = c ∨
      ((36524 * c + 1461 * q + 365 * y + d) / 36524 = c + 1 ∧
        c = 3 ∧ q = 24 ∧ y = 3 ∧ d = 365) := by omega
  rcases hcenturies with h | ⟨-, rfl, rfl, rfl, rfl⟩
  · have hera : (36524 * c + 1461 * q + 365 * y + d) / 146096 = 0 := by omega
    rw [hyears, h, hera]
    omega
  · rfl

theorem daysBefore_yearNumber (d : EraDay) : daysBefore d.yearNumber + d.day = d.number := by
  have := d.quad_le
  have := d.year_le
  simp only [daysBefore, yearNumber, number]
  omega

def date (d : EraDay) (era : Int) : Date :=
  let mp := (5 * d.day + 2) / 153
  let month := if mp < 10 then mp + 3 else mp - 9
  let year : Int := d.yearNumber + era * 400
  ⟨if month ≤ 2 then year + 1 else year, month, d.day - (153 * mp + 2) / 5 + 1⟩

theorem toDays_date (d : EraDay) (era : Int) :
    (d.date era).toDays = d.number + era * 146097 - 719468 := by
  have hday := d.day_le
  have hq := d.quad_le
  have hy := d.year_le
  have hc := d.century_le
  have hyear : ((d.date era).month ≤ 2 ∧ (d.date era).year - 1 = d.yearNumber + era * 400 ∧
        (d.date era).month + 9 = (5 * d.day + 2) / 153) ∨
      (¬(d.date era).month ≤ 2 ∧ (d.date era).year = d.yearNumber + era * 400 ∧
        (d.date era).month - 3 = (5 * d.day + 2) / 153) := by
    simp only [date]
    split <;> split <;> omega
  have hdays : (153 * ((5 * d.day + 2) / 153) + 2) / 5 + ((d.date era).day - 1) = d.day := by
    simp only [date]
    omega
  have hsum : (365 * (d.yearNumber + era * 400) + (d.yearNumber + era * 400) / 4 -
      (d.yearNumber + era * 400) / 100 + (d.yearNumber + era * 400) / 400 : Int) =
        daysBefore d.yearNumber + era * 146097 := by
    simp only [yearNumber, daysBefore]
    omega
  have hnumber := d.daysBefore_yearNumber
  unfold toDays
  rcases hyear with ⟨h, hyr, hm⟩ | ⟨h, hyr, hm⟩
  · simp only [if_pos h, hyr, hm, hdays, hsum]
    omega
  · simp only [if_neg h, hyr, hm, hdays, hsum]
    omega

theorem isLeapYear_succ {d : EraDay} (h : d.day = 365) (era : Int) :
    isLeapYear (d.yearNumber + era * 400 + 1) = true := by
  obtain ⟨hy, hq⟩ := d.leap h
  have := d.quad_le
  have := d.century_le
  rw [isLeapYear, Bool.and_eq_true, Bool.or_eq_true, decide_eq_true_iff, decide_eq_true_iff,
    decide_eq_true_iff]
  simp only [yearNumber]
  omega

theorem date_day_bounds (d : EraDay) (era : Int) :
    1 ≤ (d.date era).month ∧ (d.date era).month ≤ 12 ∧ 1 ≤ (d.date era).day ∧
      (d.date era).day ≤ daysInMonth (d.date era).year (d.date era).month := by
  have hday := d.day_le
  have hmp : (5 * d.day + 2) / 153 ≤ 11 := by omega
  by_cases hleap : d.day = 365
  · have h := isLeapYear_succ hleap era
    simp [date, hleap, daysInMonth, h]
  · have hcases : ∃ mp, (5 * d.day + 2) / 153 = mp ∧ (mp = 0 ∨ mp = 1 ∨ mp = 2 ∨ mp = 3 ∨ mp = 4 ∨
        mp = 5 ∨ mp = 6 ∨ mp = 7 ∨ mp = 8 ∨ mp = 9 ∨ mp = 10 ∨ mp = 11) := ⟨_, rfl, by omega⟩
    obtain ⟨mp, h, hmps⟩ := hcases
    rcases hmps with rfl | rfl | rfl | rfl | rfl | rfl | rfl | rfl | rfl | rfl | rfl | rfl
    all_goals
      simp only [date, h, daysInMonth]
      simp
      try split
      all_goals omega

end EraDay

theorem ofDays_eq (n : Int) : ∃ d : EraDay, ofDays n = d.date ((n + 719468) / 146097) ∧
    d.number + (n + 719468) / 146097 * 146097 = n + 719468 := by
  obtain ⟨d, hd⟩ := EraDay.exists_number (e := ((n + 719468) % 146097).toNat) (by omega)
  refine ⟨d, ?_, by omega⟩
  have hyear := d.yearOfEra_number
  have hbefore := d.daysBefore_yearNumber
  have hday : d.number - daysBefore d.yearNumber = d.day := by omega
  simp only [ofDays, EraDay.date, ← hd]
  rw [show (d.number - d.number / 1460 + d.number / 36524 - d.number / 146096) / 365 =
    d.yearNumber from hyear]
  rw [show 365 * d.yearNumber + d.yearNumber / 4 - d.yearNumber / 100 =
    daysBefore d.yearNumber from rfl, hday]

theorem toDays_ofDays (n : Int) : (ofDays n).toDays = n := by
  obtain ⟨d, hdate, hnumber⟩ := ofDays_eq n
  rw [hdate, d.toDays_date]
  omega

theorem isValid_ofDays {n : Int} (h : yearInRange (ofDays n).year = true) :
    (ofDays n).isValid = true := by
  obtain ⟨d, hdate, -⟩ := ofDays_eq n
  obtain ⟨hm1, hm12, hd1, hd⟩ := d.date_day_bounds ((n + 719468) / 146097)
  rw [hdate] at h ⊢
  simp [isValid, h, hm1, hm12, hd1, hd]

theorem month_ofDays (n : Int) : (ofDays n).month ≤ 12 ∧ (ofDays n).day ≤ 31 := by
  obtain ⟨d, hdate, -⟩ := ofDays_eq n
  obtain ⟨-, hm12, -, hd⟩ := d.date_day_bounds ((n + 719468) / 146097)
  rw [hdate]
  refine ⟨hm12, Nat.le_trans hd ?_⟩
  unfold daysInMonth
  repeat' split
  all_goals omega

end Date

end FilterQuery
