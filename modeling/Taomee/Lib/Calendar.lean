import Mathlib.Algebra.Group.Int.Defs
import Mathlib.Algebra.GroupWithZero.Nat
import Mathlib.Tactic.SplitIfs

/-!
# The proleptic Gregorian calendar

Dates of all years, numbered day by day, and the same day of another month.
-/

namespace Taomee

/-- A leap year. -/
def IsLeap (y : Int) : Prop := y % 4 = 0 ∧ (y % 100 ≠ 0 ∨ y % 400 = 0)

instance : DecidablePred IsLeap := fun y => inferInstanceAs (Decidable (y % 4 = 0 ∧ (y % 100 ≠ 0 ∨ y % 400 = 0)))

/-- The days of a month, the months counted from 1. -/
def daysInMonth (y m : Int) : Int :=
  if m = 2 then if IsLeap y then 29 else 28
  else if m = 4 ∨ m = 6 ∨ m = 9 ∨ m = 11 then 30
  else 31

/-- The days of a year with 365 days before a month. -/
def daysBefore (m : Int) : Int := ([0, 31, 59, 90, 120, 151, 181, 212, 243, 273, 304, 334].getD (m - 1).toNat 0 : Int)

/-- A day of the month, or the last day of that month when it has no such day. -/
def clampDay (y m day : Int) : Int := if day ≤ daysInMonth y m then day else daysInMonth y m

/-- What the leap day of a year adds before a month. -/
def leapDay (y m : Int) : Int := if 2 < m ∧ IsLeap y then 1 else 0

/-- The leap years from the year 1 to a year. -/
def leapYears (y : Int) : Int := y / 4 - y / 100 + y / 400

/-- Year, month and day. -/
structure Date where
  year : Int
  month : Int
  day : Int
deriving DecidableEq

namespace Date

/-- The day exists. -/
def Exists (d : Date) : Prop := 1 ≤ d.month ∧ d.month ≤ 12 ∧ 1 ≤ d.day ∧ d.day ≤ daysInMonth d.year d.month

instance (d : Date) : Decidable d.Exists := inferInstanceAs (Decidable (_ ∧ _ ∧ _ ∧ _))

/-- The day that follows. -/
def next (d : Date) : Date :=
  if d.day < daysInMonth d.year d.month then { d with day := d.day + 1 }
  else if d.month < 12 then ⟨d.year, d.month + 1, 1⟩
  else ⟨d.year + 1, 1, 1⟩

/-- The number of the day, 1 for the first of January of the year 1. -/
def number (d : Date) : Int :=
  365 * (d.year - 1) + leapYears (d.year - 1) + daysBefore d.month + leapDay d.year d.month + d.day

/-- The same day `n` months later, as far as that month has it. -/
def addMonths (d : Date) (n : Int) : Date :=
  let months := 12 * d.year + (d.month - 1) + n
  let year := months / 12
  let month := months % 12 + 1
  ⟨year, month, clampDay year month d.day⟩

/-! ## Numbering -/

theorem daysBefore_succ (y : Int) {m : Int} (h1 : 1 ≤ m) (h12 : m < 12) :
    daysBefore (m + 1) + leapDay y (m + 1) = daysBefore m + leapDay y m + daysInMonth y m := by
  have hm : m = 1 ∨ m = 2 ∨ m = 3 ∨ m = 4 ∨ m = 5 ∨ m = 6 ∨ m = 7 ∨ m = 8 ∨ m = 9 ∨ m = 10 ∨ m = 11 := by omega
  unfold daysBefore leapDay daysInMonth
  by_cases hleap : IsLeap y
  · rcases hm with rfl | rfl | rfl | rfl | rfl | rfl | rfl | rfl | rfl | rfl | rfl <;> simp [hleap]
  · rcases hm with rfl | rfl | rfl | rfl | rfl | rfl | rfl | rfl | rfl | rfl | rfl <;> simp [hleap]

/-- A leap year is one more leap year. -/
theorem leapYears_eq (y : Int) : leapYears y = leapYears (y - 1) + leapDay y 12 := by
  unfold leapYears leapDay IsLeap
  split <;> omega

/-- The leap day of a year counts from March on. -/
theorem number_eq (d : Date) : d.number = 365 * (d.year - 1) +
    leapYears (if d.month ≤ 2 then d.year - 1 else d.year) + daysBefore d.month + d.day := by
  have hyear := leapYears_eq d.year
  unfold leapDay at hyear
  unfold number leapDay
  by_cases hmonth : d.month ≤ 2
  · rw [if_pos hmonth, if_neg fun h => absurd h.1 (by omega)]
    omega
  · have hiff : (2 < d.month ∧ IsLeap d.year) ↔ ((2 : Int) < 12 ∧ IsLeap d.year) :=
      and_congr_left fun _ => ⟨fun _ => by decide, fun _ => by omega⟩
    rw [if_neg hmonth, hyear]
    simp only [hiff]
    omega

/-- The days are numbered one by one. -/
theorem number_next {d : Date} (h : d.Exists) : d.next.number = d.number + 1 := by
  obtain ⟨y, m, day⟩ := d
  obtain ⟨h1, h12, -, hlast⟩ := h
  simp only at h1 h12 hlast
  unfold next
  split
  · simp only [number]
    omega
  · next hend =>
      simp only at hend
      obtain rfl : day = daysInMonth y m := by omega
      split
      · next hmonth =>
          have hbefore := daysBefore_succ y h1 hmonth
          simp only [number]
          omega
      · next hmonth =>
          simp only at hmonth
          obtain rfl : m = 12 := by omega
          have hyear := leapYears_eq y
          have hfirst : daysBefore 1 + leapDay (y + 1) 1 = 0 := rfl
          have hlast : daysBefore 12 + daysInMonth y 12 = 365 := rfl
          have hsub : y + 1 - 1 = y := by omega
          simp only [number, hsub]
          omega

/-! ## Months -/

/-- Months are added in every year alike. -/
theorem addMonths_year (d : Date) (k n : Int) :
    addMonths ⟨d.year - k, d.month, d.day⟩ n = ⟨(d.addMonths n).year - k, (d.addMonths n).month,
      clampDay ((d.addMonths n).year - k) (d.addMonths n).month d.day⟩ := by
  have hyear : (12 * (d.year - k) + (d.month - 1) + n) / 12 = (12 * d.year + (d.month - 1) + n) / 12 - k := by omega
  have hmonth : (12 * (d.year - k) + (d.month - 1) + n) % 12 = (12 * d.year + (d.month - 1) + n) % 12 := by omega
  simp only [addMonths, hyear, hmonth]

theorem addMonths_zero {d : Date} (h : d.Exists) : d.addMonths 0 = d := by
  obtain ⟨y, m, day⟩ := d
  obtain ⟨h1, h12, -, hlast⟩ := h
  simp only at h1 h12 hlast
  have hyear : (12 * y + (m - 1) + 0) / 12 = y := by omega
  have hmonth : (12 * y + (m - 1) + 0) % 12 + 1 = m := by omega
  simp only [addMonths, hyear, hmonth, clampDay, if_pos hlast]

end Date

end Taomee
