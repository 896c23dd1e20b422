import Taomee.Lib.Calendar
import Taomee.Lib.CInt

/-!
# Midnight of a day in another month (time/time.c)

`mk_integral_tm_day` counts the days from the current day to the day asked for with the dates of GLib, and adds
them to the midnight of the current day. It gives GLib the years as `struct tm` has them, counted from 1900.
GLib is a parameter, and what its documentation says is a hypothesis.
-/

namespace Taomee.Time

/-- `struct tm` -/
structure Tm where
  tmSec : Int
  tmMin : Int
  tmHour : Int
  tmMday : Int
  tmMon : Int
  tmYear : Int

/-- The date that a `struct tm` stands for. -/
def Tm.date (tm : Tm) : Date := ⟨tm.tmYear + 1900, tm.tmMon + 1, tm.tmMday⟩

/-- Midnight of a date, in seconds from the epoch, for a timezone `zone` seconds ahead. -/
def midnight (zone : Int) (d : Date) : Int := (d.number - (Date.mk 1970 1 1).number) * 86400 - zone

/-- `mktime(tm)` in a timezone without offset changes. -/
def mktime (zone : Int) (tm : Tm) : Int := midnight zone tm.date + tm.tmHour * 3600 + tm.tmMin * 60 + tm.tmSec

/-- `GDate` and the functions of GLib on it; a call that is not allowed has no result. -/
structure GDateLib (GDate : Type) where
  date : GDate → Date
  newDmy : Int → Int → Int → Option GDate
  addMonths : GDate → Nat → Option GDate
  subtractMonths : GDate → Nat → Option GDate
  daysBetween : GDate → GDate → Int

/-- GLib has the dates of the proleptic Gregorian calendar from the year 1 on. -/
structure GDateLib.Gregorian {GDate : Type} (G : GDateLib GDate) : Prop where
  newDmy_exists : ∀ d m y, 1 ≤ y → (Date.mk y m d).Exists → ∃ g, G.newDmy d m y = some g ∧ G.date g = ⟨y, m, d⟩
  newDmy_requires : ∀ d m y, ¬ (Date.mk y m d).Exists → G.newDmy d m y = none
  addMonths_date : ∀ g (n : Nat), ∃ g', G.addMonths g n = some g' ∧ G.date g' = (G.date g).addMonths n
  subtractMonths_date : ∀ g (n : Nat), 1 ≤ ((G.date g).addMonths (-n)).year →
    ∃ g', G.subtractMonths g n = some g' ∧ G.date g' = (G.date g).addMonths (-n)
  subtractMonths_requires : ∀ g (n : Nat), ((G.date g).addMonths (-n)).year < 1 → G.subtractMonths g n = none
  daysBetween_number : ∀ g g', G.daysBetween g g' = (G.date g').number - (G.date g).number

/-- `if (month > 0) g_date_add_months(gdate, month); else if (month < 0) g_date_subtract_months(gdate, -month)` -/
def shiftMonths {GDate : Type} (G : GDateLib GDate) (gdate : GDate) (month : Int) : Option GDate :=
  if month > 0 then G.addMonths gdate month.toNat
  else if month < 0 then G.subtractMonths gdate (-month).toNat
  else some gdate

/-- `mk_integral_tm_day(tm_cur, mday, month)` -/
def mkIntegralTmDay {GDate : Type} (G : GDateLib GDate) (zone : Int) (tmCur : Tm) (mday month : Int) : Option Int :=
  if mday > 0 ∧ mday < 32 then do
    let tmCur := { tmCur with tmHour := 0, tmMin := 0, tmSec := 0 }
    let gdate1 ← G.newDmy tmCur.tmMday (tmCur.tmMon + 1) tmCur.tmYear
    let gdate2 ← G.newDmy mday (tmCur.tmMon + 1) tmCur.tmYear
    let gdate2 ← shiftMonths G gdate2 month
    let days := toI32 (G.daysBetween gdate1 gdate2)
    return mktime zone tmCur + toI32 (days * 86400)
  else none

/-- The day asked for: `mday` of the month reached. -/
def reached (tmCur : Tm) (mday month : Int) : Date := { tmCur.date.addMonths month with day := mday }

/-! ## The same dates 1900 years earlier -/

/-- The date that GLib is given in place of a date: 1900 years earlier, and the last day of the month when the
month has no such day then. -/
def earlier (d : Date) : Date := ⟨d.year - 1900, d.month, clampDay (d.year - 1900) d.month d.day⟩

/-- From the leap day of a year divisible by 400 to the end of February three hundred years later. -/
def Late (d : Date) : Prop := (if d.month = 1 ∨ (d.month = 2 ∧ d.day ≤ 28) then d.year - 1 else d.year) % 400 < 300

instance (d : Date) : Decidable (Late d) := inferInstanceAs (Decidable (_ < _))

/-- In 1900 years there are 460 leap years, and one more when two years divisible by 400 are among those that end
in 00. -/
theorem leapYears_earlier (y : Int) :
    leapYears y = leapYears (y - 1900) + 460 + if y % 400 < 300 then 1 else 0 := by
  unfold leapYears
  split <;> omega

/-- The 29 of February of a year divisible by 400 is the one that has no counterpart. -/
theorem number_earlier {d : Date} (h : d.Exists) :
    d.number = (earlier d).number + 693960 + if Late d then 1 else 0 := by
  obtain ⟨y, m, day⟩ := d
  obtain ⟨h1, h12, hday, hlast⟩ := h
  simp only at h1 h12 hday hlast
  rw [Date.number_eq, Date.number_eq]
  unfold earlier
  simp only
  have hprev : y - 1900 - 1 = y - 1 - 1900 := by omega
  have hlow := leapYears_earlier (y - 1)
  have hhigh := leapYears_earlier y
  by_cases hfeb : m = 2
  · subst hfeb
    have hdays : ∀ y, daysInMonth y 2 = if IsLeap y then 29 else 28 := fun y => if_pos rfl
    rw [hdays] at hlast
    rw [if_pos (Int.le_refl 2), if_pos (Int.le_refl 2), hprev, hlow]
    unfold clampDay
    rw [hdays]
    by_cases hearly : day ≤ 28
    · have hlate : Late ⟨y, 2, day⟩ ↔ (y - 1) % 400 < 300 := by
        unfold Late
        rw [if_pos (show (2 : Int) = 1 ∨ (2 : Int) = 2 ∧ day ≤ 28 from .inr ⟨rfl, hearly⟩)]
      have hday' : day ≤ if IsLeap (y - 1900) then 29 else 28 := by split <;> omega
      rw [if_pos hday']
      simp only [hlate]
      omega
    · have hlate : Late ⟨y, 2, day⟩ ↔ y % 400 < 300 := by
        unfold Late
        rw [if_neg (show ¬ ((2 : Int) = 1 ∨ (2 : Int) = 2 ∧ day ≤ 28) by omega)]
      have hleap : IsLeap y := by
        by_contra hno
        rw [if_neg hno] at hlast
        omega
      rw [if_pos hleap] at hlast
      simp only [hlate]
      unfold IsLeap at hleap
      by_cases hcount : IsLeap (y - 1900)
      · rw [if_pos hcount, if_pos hlast]
        unfold IsLeap at hcount
        have hspan : (y - 1) % 400 < 300 ↔ y % 400 < 300 := by omega
        simp only [hspan]
        omega
      · rw [if_neg hcount, if_neg hearly]
        unfold IsLeap at hcount
        have hyear : y % 400 = 0 := by omega
        rw [if_neg (by omega), if_pos (by omega)]
        omega
  · have hdays : daysInMonth (y - 1900) m = daysInMonth y m := by
      unfold daysInMonth
      rw [if_neg hfeb, if_neg hfeb]
    unfold clampDay
    rw [hdays, if_pos hlast]
    by_cases hjan : m = 1
    · have hlate : Late ⟨y, m, day⟩ ↔ (y - 1) % 400 < 300 := by
        unfold Late
        rw [if_pos (show m = 1 ∨ m = 2 ∧ day ≤ 28 from .inl hjan)]
      rw [if_pos (by omega), if_pos (by omega), hprev, hlow]
      simp only [hlate]
      omega
    · have hlate : Late ⟨y, m, day⟩ ↔ y % 400 < 300 := by
        unfold Late
        rw [if_neg (show ¬ (m = 1 ∨ m = 2 ∧ day ≤ 28) by omega)]
      rw [if_neg (by omega), if_neg (by omega), hhigh]
      simp only [hlate]
      omega

/-! ## The days that are counted -/

/-- What is needed for the days that are counted to be right. -/
structure SameCount (tmCur : Tm) (mday month : Int) : Prop where
  today : tmCur.tmMday ≤ daysInMonth tmCur.tmYear (tmCur.tmMon + 1)
  between : mday ≤ daysInMonth tmCur.tmYear (tmCur.tmMon + 1)
  year : 1901 ≤ (reached tmCur mday month).year
  leaps : Late tmCur.date ↔ Late (reached tmCur mday month)
  near : -24855 ≤ (reached tmCur mday month).number - tmCur.date.number ∧
    (reached tmCur mday month).number - tmCur.date.number ≤ 24855

variable {GDate : Type} {G : GDateLib GDate} {tmCur : Tm} {mday month : Int}

/-- The seconds added are those of the days only when no day too many is counted and they fit in an `int`. -/
theorem seconds_iff (r : Int) {k : Int} (hk : -1 ≤ k ∧ k ≤ 1) :
    toI32 (toI32 (r + k) * 86400) = r * 86400 ↔ k = 0 ∧ -24855 ≤ r ∧ r ≤ 24855 := by
  constructor
  · intro heq
    have hrange : ∀ z, -2 ^ 31 ≤ toI32 z ∧ toI32 z < 2 ^ 31 := by
      intro z
      unfold toI32
      rw [Int.bmod_def]
      split <;> omega
    have hr := hrange (toI32 (r + k) * 86400)
    rw [heq] at hr
    have hnear : -24855 ≤ r ∧ r ≤ 24855 := by omega
    rw [toI32_of_lt (z := r + k) (by omega) (by omega)] at heq
    unfold toI32 at heq
    rw [Int.bmod_def] at heq
    refine ⟨?_, hnear⟩
    split at heq <;> omega
  · rintro ⟨rfl, hlow, hhigh⟩
    rw [Int.add_zero, toI32_of_lt (z := r) (by omega) (by omega), toI32_of_lt (by omega) (by omega)]

/-- The month is shifted as the months of the full years are, when GLib has the year that is reached. -/
theorem shiftMonths_date (hG : G.Gregorian) {gdate : GDate}
    (hdate : G.date gdate = ⟨tmCur.tmYear, tmCur.tmMon + 1, mday⟩) (hexists : (G.date gdate).Exists)
    (hyear : 1901 ≤ (reached tmCur mday month).year) :
    ∃ gdate', shiftMonths G gdate month = some gdate' ∧ G.date gdate' = earlier (reached tmCur mday month) := by
  have hshift : (G.date gdate).addMonths month = earlier (reached tmCur mday month) := by
    have hyears := Date.addMonths_year ⟨tmCur.tmYear + 1900, tmCur.tmMon + 1, mday⟩ 1900 month
    rw [Int.add_sub_cancel] at hyears
    rw [hdate, hyears]
    rfl
  rw [← hshift]
  unfold shiftMonths
  split
  · obtain ⟨g', hg', hdate'⟩ := hG.addMonths_date gdate month.toNat
    rw [Int.toNat_of_nonneg (by omega)] at hdate'
    exact ⟨g', hg', hdate'⟩
  · split
    · have hneg : -((-month).toNat : Int) = month := by omega
      have hpos : 1 ≤ ((G.date gdate).addMonths (-((-month).toNat : Int))).year := by
        rw [hneg, hshift]
        unfold earlier
        simp only
        omega
      obtain ⟨g', hg', hdate'⟩ := hG.subtractMonths_date gdate (-month).toNat hpos
      rw [hneg] at hdate'
      exact ⟨g', hg', hdate'⟩
    · obtain rfl : month = 0 := by omega
      exact ⟨gdate, rfl, (Date.addMonths_zero hexists).symm⟩

/-- No year before the first one is reached. -/
theorem shiftMonths_requires (hG : G.Gregorian) {gdate : GDate}
    (hdate : G.date gdate = ⟨tmCur.tmYear, tmCur.tmMon + 1, mday⟩) (hmon : 0 ≤ tmCur.tmMon) (h1970 : 70 ≤ tmCur.tmYear)
    (hyear : (reached tmCur mday month).year < 1901) : shiftMonths G gdate month = none := by
  have hreached : (reached tmCur mday month).year =
      (12 * (tmCur.tmYear + 1900) + (tmCur.tmMon + 1 - 1) + month) / 12 := rfl
  have hshifted : (Date.addMonths ⟨tmCur.tmYear, tmCur.tmMon + 1, mday⟩ month).year =
      (12 * tmCur.tmYear + (tmCur.tmMon + 1 - 1) + month) / 12 := rfl
  have hneg : -((-month).toNat : Int) = month := by omega
  unfold shiftMonths
  rw [if_neg (by omega), if_pos (by omega)]
  refine hG.subtractMonths_requires gdate (-month).toNat ?_
  rw [hneg, hdate, hshifted]
  omega

/-- The result, as far as GLib has the dates, is off by what the count of the days is off. -/
theorem mkIntegralTmDay_eq (hG : G.Gregorian) (zone : Int) (htm : tmCur.date.Exists) (h1970 : 70 ≤ tmCur.tmYear)
    (hreached : (reached tmCur mday month).Exists)
    (htoday : tmCur.tmMday ≤ daysInMonth tmCur.tmYear (tmCur.tmMon + 1))
    (hbetween : mday ≤ daysInMonth tmCur.tmYear (tmCur.tmMon + 1)) (hyear : 1901 ≤ (reached tmCur mday month).year) :
    mkIntegralTmDay G zone tmCur mday month = some (midnight zone tmCur.date +
      toI32 (toI32 ((earlier (reached tmCur mday month)).number - (earlier tmCur.date).number) * 86400)) := by
  obtain ⟨hm1, hm12, hd1, hd⟩ := htm
  obtain ⟨-, -, hmday, hlast⟩ := hreached
  have hmax : ∀ y m, daysInMonth y m ≤ 31 := by
    intro y m
    unfold daysInMonth
    split_ifs <;> omega
  have hmday31 : mday < 32 := by
    have := hmax (reached tmCur mday month).year (reached tmCur mday month).month
    have hday : (reached tmCur mday month).day = mday := rfl
    omega
  obtain ⟨g1, hg1, hdate1⟩ := hG.newDmy_exists tmCur.tmMday (tmCur.tmMon + 1) tmCur.tmYear (by omega)
    ⟨hm1, hm12, hd1, htoday⟩
  obtain ⟨g2, hg2, hdate2⟩ := hG.newDmy_exists mday (tmCur.tmMon + 1) tmCur.tmYear (by omega)
    ⟨hm1, hm12, hmday, hbetween⟩
  obtain ⟨g3, hg3, hdate3⟩ := shiftMonths_date hG hdate2 (by rw [hdate2]; exact ⟨hm1, hm12, hmday, hbetween⟩) hyear
  have htodayDate : G.date g1 = earlier tmCur.date := by
    have hsub : tmCur.tmYear + 1900 - 1900 = tmCur.tmYear := Int.add_sub_cancel _ _
    rw [hdate1]
    unfold earlier Tm.date clampDay
    simp only [hsub, if_pos htoday]
  unfold mkIntegralTmDay
  rw [if_pos ⟨hmday, hmday31⟩]
  simp only [hg1, hg2, hg3, Option.bind_eq_bind, Option.bind_some, hG.daysBetween_number, htodayDate, hdate3]
  unfold mktime Tm.date
  simp only [Int.zero_mul, Int.add_zero]
  rfl

/-- A date on the way that GLib does not have. -/
theorem mkIntegralTmDay_none (hG : G.Gregorian) (zone : Int) (htm : tmCur.date.Exists) (h1970 : 70 ≤ tmCur.tmYear)
    (h : ¬ (tmCur.tmMday ≤ daysInMonth tmCur.tmYear (tmCur.tmMon + 1) ∧
      mday ≤ daysInMonth tmCur.tmYear (tmCur.tmMon + 1) ∧ 1901 ≤ (reached tmCur mday month).year)) :
    mkIntegralTmDay G zone tmCur mday month = none := by
  obtain ⟨hm1, hm12, hd1, -⟩ := htm
  have hmon : 0 ≤ tmCur.tmMon := by
    have hmonth : tmCur.date.month = tmCur.tmMon + 1 := rfl
    omega
  unfold mkIntegralTmDay
  by_cases hassert : mday > 0 ∧ mday < 32
  · rw [if_pos hassert]
    by_cases htoday : tmCur.tmMday ≤ daysInMonth tmCur.tmYear (tmCur.tmMon + 1)
    · obtain ⟨g1, hg1, -⟩ := hG.newDmy_exists tmCur.tmMday (tmCur.tmMon + 1) tmCur.tmYear (by omega)
        ⟨hm1, hm12, hd1, htoday⟩
      by_cases hbetween : mday ≤ daysInMonth tmCur.tmYear (tmCur.tmMon + 1)
      · obtain ⟨g2, hg2, hdate2⟩ := hG.newDmy_exists mday (tmCur.tmMon + 1) tmCur.tmYear (by omega)
          ⟨hm1, hm12, show 1 ≤ mday by omega, hbetween⟩
        have hyear : (reached tmCur mday month).year < 1901 := by
          by_contra hyear
          exact h ⟨htoday, hbetween, by omega⟩
        have hshift := shiftMonths_requires hG hdate2 hmon h1970 hyear
        simp only [hg1, hg2, hshift, Option.bind_eq_bind, Option.bind_some, Option.bind_none]
      · have hg2 := hG.newDmy_requires mday (tmCur.tmMon + 1) tmCur.tmYear fun hexists => hbetween hexists.2.2.2
        simp only [hg1, hg2, Option.bind_eq_bind, Option.bind_some, Option.bind_none]
    · have hg1 := hG.newDmy_requires tmCur.tmMday (tmCur.tmMon + 1) tmCur.tmYear fun hexists =>
        htoday hexists.2.2.2
      simp only [hg1, Option.bind_eq_bind, Option.bind_none]
  · exact if_neg hassert

/-- The result is midnight of the day asked for exactly when GLib has the dates on the way, no leap day counts
in one calendar only, and the days are near enough. -/
theorem mkIntegralTmDay_iff (hG : G.Gregorian) (zone : Int) (htm : tmCur.date.Exists) (h1970 : 70 ≤ tmCur.tmYear)
    (hreached : (reached tmCur mday month).Exists) :
    mkIntegralTmDay G zone tmCur mday month = some (midnight zone (reached tmCur mday month)) ↔
      SameCount tmCur mday month := by
  have hcur := number_earlier htm
  have hnew := number_earlier hreached
  generalize hr : (reached tmCur mday month).number - tmCur.date.number = r
  have hmidnight : midnight zone (reached tmCur mday month) = midnight zone tmCur.date + r * 86400 := by
    unfold midnight
    omega
  obtain ⟨k, hk, hcount, hsame⟩ : ∃ k, (-1 ≤ k ∧ k ≤ 1) ∧
      (earlier (reached tmCur mday month)).number - (earlier tmCur.date).number = r + k ∧
      (k = 0 ↔ (Late tmCur.date ↔ Late (reached tmCur mday month))) := by
    refine ⟨(if Late tmCur.date then 1 else 0) - (if Late (reached tmCur mday month) then 1 else 0), ?_, ?_, ?_⟩
    · split_ifs <;> decide
    · omega
    · by_cases h1 : Late tmCur.date
      · by_cases h2 : Late (reached tmCur mday month)
        · simp [h1, h2]
        · simp [h1, h2]
      · by_cases h2 : Late (reached tmCur mday month)
        · simp [h1, h2]
        · simp [h1, h2]
  by_cases hdates : tmCur.tmMday ≤ daysInMonth tmCur.tmYear (tmCur.tmMon + 1) ∧
      mday ≤ daysInMonth tmCur.tmYear (tmCur.tmMon + 1) ∧ 1901 ≤ (reached tmCur mday month).year
  · obtain ⟨htoday, hbetween, hyear⟩ := hdates
    rw [mkIntegralTmDay_eq hG zone htm h1970 hreached htoday hbetween hyear, hmidnight, hcount, Option.some.injEq,
      Int.add_right_inj, seconds_iff r hk, hsame]
    constructor
    · rintro ⟨hleaps, hnear⟩
      exact ⟨htoday, hbetween, hyear, hleaps, by rw [hr]; exact hnear⟩
    · intro h
      exact ⟨h.leaps, by rw [← hr]; exact h.near⟩
  · refine ⟨fun heq => absurd heq ?_, fun h => absurd ⟨h.today, h.between, h.year⟩ hdates⟩
    rw [mkIntegralTmDay_none hG zone htm h1970 hdates]
    intro hsome
    cases hsome

/-- The dates of the calendar themselves. -/
def gregorianDates : GDateLib Date where
  date d := d
  newDmy d m y := if 1 ≤ y ∧ (Date.mk y m d).Exists then some ⟨y, m, d⟩ else none
  addMonths d n := some (d.addMonths n)
  subtractMonths d n := if 1 ≤ (d.addMonths (-n)).year then some (d.addMonths (-n)) else none
  daysBetween d d' := d'.number - d.number

theorem gregorianDates_gregorian : gregorianDates.Gregorian where
  newDmy_exists d m y hy h := ⟨⟨y, m, d⟩, if_pos ⟨hy, h⟩, rfl⟩
  newDmy_requires _ _ _ h := if_neg fun hd => h hd.2
  addMonths_date d n := ⟨d.addMonths n, rfl, rfl⟩
  subtractMonths_date d n h := ⟨d.addMonths (-n), if_pos h, rfl⟩
  subtractMonths_requires _ _ h := if_neg (Int.not_le.mpr h)
  daysBetween_number _ _ := rfl

/-- From the afternoon of 16 December 2008 to 15 January 2009, eight hours ahead. -/
theorem mkIntegralTmDay_iff_sample :
    mkIntegralTmDay gregorianDates 28800 ⟨25, 10, 16, 16, 11, 108⟩ 15 1 = some 1231948800 := by
  have h := (@mkIntegralTmDay_iff Date gregorianDates ⟨25, 10, 16, 16, 11, 108⟩ 15 1 gregorianDates_gregorian 28800
    (by decide) (by decide) (by decide)).mpr ⟨by decide, by decide, by decide, by decide, by decide⟩
  have hvalue : midnight 28800 (reached ⟨25, 10, 16, 16, 11, 108⟩ 15 1) = 1231948800 := by decide
  rwa [hvalue] at h

/-- From 15 February 2000, which has a leap day behind it, to 15 March. -/
theorem not_mkIntegralTmDay_midnight : ¬ ∀ (GDate : Type) (G : GDateLib GDate), G.Gregorian →
    ∀ (zone : Int) (tmCur : Tm) (mday month : Int), tmCur.date.Exists → 70 ≤ tmCur.tmYear →
      (reached tmCur mday month).Exists →
      mkIntegralTmDay G zone tmCur mday month = some (midnight zone (reached tmCur mday month)) := by
  intro h
  have hmarch := h Date gregorianDates gregorianDates_gregorian 0 ⟨0, 0, 0, 15, 1, 100⟩ 15 1 (by decide) (by decide)
    (by decide)
  exact absurd hmarch (by decide)

end Taomee.Time
