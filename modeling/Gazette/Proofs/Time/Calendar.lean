import Gazette.Time.Calendar

/-!
# Days and dates

The date of a day names that day again (`Date.toDays_ofDays`) and is a date of the calendar
(`Date.isValid_ofDays`), for every day there is.  A day is cut into an era of 400 years and a day of
it (`EraDay`), and that one into centuries of 36524 days, groups of 1461 days and years of 365 days,
where the last of each may have a day more.
-/

namespace Gazette

/-- A day of an era: its century, the group of four years in the century, the year in the group and
the day of the year, all from zero and with years that begin in March. -/
structure EraDay where
  century : Nat
  group : Nat
  year : Nat
  day : Nat
  century_le : century ≤ 3
  group_le : group ≤ 24
  year_le : year ≤ 3
  day_le : day ≤ 365
  /-- A leap day ends a group of years, but it ends a century only at the end of the era. -/
  leap : day = 365 → year = 3 ∧ (group ≤ 23 ∨ century = 3)

namespace EraDay

/-- The number of a day in its era. -/
def number (d : EraDay) : Nat := 36524 * d.century + 1461 * d.group + 365 * d.year + d.day

/-- The year of a day in its era. -/
def yearOfEra (d : EraDay) : Nat := 100 * d.century + 4 * d.group + d.year

theorem number_lt (d : EraDay) : d.number < 146097 := by
  obtain ⟨c, g, y, day, hc, hg, hy, hday, hleap⟩ := d
  simp only [number]
  omega

theorem yearOfEra_lt (d : EraDay) : d.yearOfEra < 400 := by
  obtain ⟨c, g, y, day, hc, hg, hy, hday, hleap⟩ := d
  simp only [yearOfEra]
  omega

theorem exists_number {n : Nat} (h : n < 146097) : ∃ d : EraDay, d.number = n := by
  -- The last day of the era would begin a fifth century, and a leap day a fifth year.
  obtain ⟨c, hc⟩ : ∃ c, c = min (n / 36524) 3 := ⟨_, rfl⟩
  obtain ⟨r, hr⟩ : ∃ r, r = n - 36524 * c := ⟨_, rfl⟩
  obtain ⟨y, hy⟩ : ∃ y, y = min (r % 1461 / 365) 3 := ⟨_, rfl⟩
  refine ⟨⟨c, r / 1461, y, r % 1461 - 365 * y, by omega, by omega, by omega, by omega, ?_⟩, ?_⟩
  · intro h
    omega
  · simp only [number]
    omega

/-! ## Years -/

/-- A day in 1460, a day less in 36524 and one in 146096 leave 365 for each year. -/
theorem yearOfEra_eq (d : EraDay) :
    (d.number - d.number / 1460 + d.number / 36524 - d.number / 146096) / 365 = d.yearOfEra := by
  obtain ⟨c, g, y, day, hc, hg, hy, hday, hleap⟩ := d
  simp only [number, yearOfEra]
  have hgroup : ∃ e ≤ 1, (36524 * c + 1461 * g + 365 * y + day) / 1460 = 25 * c + g + e ∧
      (e = 1 ↔ 1460 ≤ 24 * c + g + 365 * y + day) := by
    rcases Nat.lt_or_ge (24 * c + g + 365 * y + day) 1460 with h | h
    · exact ⟨0, by omega, by omega, by omega⟩
    · exact ⟨1, by omega, by omega, by omega⟩
  obtain ⟨e, he, hgroup, hone⟩ := hgroup
  have hcentury : (36524 * c + 1461 * g + 365 * y + day) / 36524 =
      c + (36524 * c + 1461 * g + 365 * y + day) / 146096 := by
    by_cases hlast : 1461 * g + 365 * y + day = 36524
    · obtain rfl : c = 3 := by omega
      omega
    · have hlt : 1461 * g + 365 * y + day < 36524 := by omega
      rw [Nat.div_eq_of_lt (b := 146096) (by omega), Nat.div_eq_iff (by decide)]
      omega
  rw [hgroup, hcentury, Nat.div_eq_iff (by decide)]
  omega

theorem daysBefore_yearOfEra (d : EraDay) :
    365 * d.yearOfEra + d.yearOfEra / 4 - d.yearOfEra / 100 + d.day = d.number := by
  obtain ⟨c, g, y, day, hc, hg, hy, hday, hleap⟩ := d
  simp only [number, yearOfEra]
  have hquarter : (100 * c + 4 * g + y) / 4 = 25 * c + g := by omega
  have hcentury : (100 * c + 4 * g + y) / 100 = c := by omega
  rw [hquarter, hcentury]
  omega

theorem isLeapYear_of_leap {d : EraDay} (h : d.day = 365) (era : Int) :
    Date.isLeapYear (d.yearOfEra + era * 400 + 1) := by
  obtain ⟨c, g, y, day, hc, hg, hy, hday, hleap⟩ := d
  obtain ⟨rfl, hlast⟩ := hleap h
  simp only [Date.isLeapYear, Bool.and_eq_true, Bool.or_eq_true, decide_eq_true_eq]
  simp only [yearOfEra]
  omega

/-! ## Months -/

/-- The months since March that are over on a day. -/
def months (d : EraDay) : Nat := (5 * d.day + 2) / 153

theorem months_le (d : EraDay) : d.months ≤ 11 := by
  have hday := d.day_le
  simp only [months]
  omega

/-- The date of a day of an era. -/
def date (d : EraDay) (era : Int) : Date :=
  let month := if d.months < 10 then d.months + 3 else d.months - 9
  ⟨if month ≤ 2 then d.yearOfEra + era * 400 + 1 else d.yearOfEra + era * 400, month,
    d.day - Date.daysBeforeMonth d.months + 1⟩

theorem month_date (d : EraDay) (era : Int) :
    d.months < 10 ∧ (d.date era).month = d.months + 3 ∨
      10 ≤ d.months ∧ (d.date era).month = d.months - 9 := by
  simp only [date]
  split <;> omega

theorem year_date (d : EraDay) (era : Int) :
    (d.date era).year = d.yearOfEra + era * 400 ∨
      (d.date era).year = d.yearOfEra + era * 400 + 1 := by
  simp only [date]
  split <;> omega

theorem day_le_daysInMonth (d : EraDay) (era : Int) :
    (d.date era).day ≤ Date.daysInMonth (d.date era).year (d.date era).month := by
  have hday := d.day_le
  have hmonths : d.months = (5 * d.day + 2) / 153 := rfl
  have hdate : (d.date era).day = d.day - (153 * d.months + 2) / 5 + 1 := rfl
  have hmonth := d.month_date era
  rw [Date.daysInMonth]
  split
  case isTrue hfebruary =>
    have hlast : d.months = 11 := by omega
    split
    case isTrue hleap => omega
    case isFalse hleap =>
      have hyear : (d.date era).year = d.yearOfEra + era * 400 + 1 :=
        if_pos (Nat.le_of_eq hfebruary)
      have hne : d.day ≠ 365 := fun h => hleap (hyear ▸ isLeapYear_of_leap h era)
      omega
  case isFalse hfebruary =>
    split
    case isTrue hshort =>
      have hmonths : d.months = 1 ∨ d.months = 3 ∨ d.months = 6 ∨ d.months = 8 := by omega
      rcases hmonths with h | h | h | h <;> omega
    case isFalse hlong => omega

theorem isValid_date (d : EraDay) (era : Int) : (d.date era).isValid := by
  have hle := d.months_le
  have hmonth := d.month_date era
  simp only [Date.isValid, Bool.and_eq_true, decide_eq_true_eq]
  exact ⟨⟨⟨by omega, by omega⟩, Nat.le_add_left ..⟩, d.day_le_daysInMonth era⟩

/-! ## Days -/

theorem ofDays_number (d : EraDay) (era : Int) :
    Date.ofDays (era * Date.daysPerEra + d.number - Date.daysToEpoch) = d.date era := by
  have hlt := d.number_lt
  have hera : (era * Date.daysPerEra + d.number).fdiv Date.daysPerEra = era := by
    rw [Int.fdiv_eq_ediv_of_nonneg _ (by decide), Date.daysPerEra]
    omega
  have hnumber : ((era * Date.daysPerEra + d.number).fmod Date.daysPerEra).toNat = d.number := by
    rw [Int.fmod_eq_emod_of_nonneg _ (by decide), Date.daysPerEra]
    omega
  have hday : d.number - (365 * d.yearOfEra + d.yearOfEra / 4 - d.yearOfEra / 100) = d.day := by
    have hdays := d.daysBefore_yearOfEra
    omega
  simp only [Date.ofDays, Int.sub_add_cancel, hera, hnumber, yearOfEra_eq, hday]
  rfl

theorem toDays_date (d : EraDay) (era : Int) :
    (d.date era).toDays = era * Date.daysPerEra + d.number - Date.daysToEpoch := by
  have hmonths := d.months_le
  have hlt := d.yearOfEra_lt
  have hdays := d.daysBefore_yearOfEra
  have hbefore : Date.daysBeforeMonth d.months ≤ d.day := by
    simp only [Date.daysBeforeMonth, months]
    omega
  -- The year and the month are counted from March again.
  have hyear : (if (d.date era).month ≤ 2 then (d.date era).year - 1 else (d.date era).year) =
      d.yearOfEra + era * 400 := by
    simp only [date]
    split <;> omega
  have hmonth : (if (d.date era).month ≤ 2 then (d.date era).month + 9
      else (d.date era).month - 3) = d.months := by
    have h := d.month_date era
    split <;> omega
  have hera : ((d.yearOfEra : Int) + era * 400).fdiv 400 = era := by
    rw [Int.fdiv_eq_ediv_of_nonneg _ (by decide)]
    omega
  have hmod : ((d.yearOfEra : Int) + era * 400).fmod 400 = d.yearOfEra := by
    rw [Int.fmod_eq_emod_of_nonneg _ (by decide)]
    omega
  simp only [Date.toDays, hyear, hmonth, hera, hmod]
  simp only [date]
  omega

theorem exists_ofDays (days : Int) :
    ∃ (d : EraDay) (era : Int), days = era * Date.daysPerEra + d.number - Date.daysToEpoch ∧
      Date.ofDays days = d.date era := by
  obtain ⟨d, hd⟩ := exists_number (n := ((days + Date.daysToEpoch) % 146097).toNat) (by omega)
  have hdays : days = (days + Date.daysToEpoch) / 146097 * Date.daysPerEra + d.number -
      Date.daysToEpoch := by
    rw [hd, Date.daysPerEra]
    omega
  exact ⟨d, _, hdays, (congrArg Date.ofDays hdays).trans (d.ofDays_number _)⟩

end EraDay

/-! ## The two conversions -/

theorem Date.toDays_ofDays (days : Int) : (Date.ofDays days).toDays = days := by
  obtain ⟨d, era, hdays, hdate⟩ := EraDay.exists_ofDays days
  rw [hdate, d.toDays_date, hdays]

theorem Date.isValid_ofDays (days : Int) : (Date.ofDays days).isValid := by
  obtain ⟨d, era, -, hdate⟩ := EraDay.exists_ofDays days
  rw [hdate]
  exact d.isValid_date era

example : Date.ofDays 11016 = ⟨2000, 2, 29⟩ := by decide

end Gazette
