import Mathlib.Algebra.Group.Int.Defs
import Mathlib.Order.Monotone.Basic
import Triage.Time

/-!
Dates and day numbers.

Months are numbered from March of year 0. The first days of the months (`monthStart`) increase, so
every day belongs to one month: `dateOf` finds it (`isDate_dateOf`), and days come in the order of
their dates (`IsDate.lt_of_dayNumber_lt`). With the time of day, a second is known from its stamp
(`seconds_stampOf`), and the fields of stamps order the seconds (`fields_stampOf_lt`).
-/

namespace Triage

namespace Time

/-! ## The clock -/

/-- The last second that the clock can hold. The first one is as far before 1970. -/
def lastSecond : Nat := 9223372036

theorem onClock_eq_self {t : Int} (h : t.natAbs ≤ lastSecond) : onClock t = t := by
  unfold lastSecond at h
  have hword : nanoseconds t = t * 1000000000 :=
    Int.bmod_eq_of_le (by simp only [UInt64.size]; omega) (by simp only [UInt64.size]; omega)
  rw [onClock, hword]
  exact Int.mul_tdiv_cancel _ (by decide)

/-- The days from 1 March of year 0 to 1 March of a year. -/
def yearStart (year : Int) : Int := 365 * year + year / 4 - year / 100 + year / 400

theorem yearStart_bounds (year : Int) :
    yearStart year + 365 ≤ yearStart (year + 1) ∧ yearStart (year + 1) ≤ yearStart year + 366 := by
  unfold yearStart
  omega

/-- The year that a day belongs to, with its number in that year. Both are counted from 1 March. -/
def yearOf (days : Int) : Int × Int :=
  let century := min (days % 146097 / 36524) 3
  let rest := days % 146097 - 36524 * century
  let single := min (rest % 1461 / 365) 3
  (400 * (days / 146097) + 100 * century + 4 * (rest / 1461) + single, rest % 1461 - 365 * single)

theorem yearStart_eq {cycle century four single : Int} (hcentury : 0 ≤ century ∧ century ≤ 3)
    (hfour : 0 ≤ four ∧ four ≤ 24) (hsingle : 0 ≤ single ∧ single ≤ 3) :
    yearStart (400 * cycle + 100 * century + 4 * four + single) =
      146097 * cycle + 36524 * century + 1461 * four + 365 * single := by
  unfold yearStart
  omega

/-- The last of four years ends with a leap day, but for the last of a century that does not end a
cycle. -/
theorem yearStart_succ {cycle century four single : Int} (hcentury : 0 ≤ century ∧ century ≤ 3)
    (hfour : 0 ≤ four ∧ four ≤ 24) (hsingle : 0 ≤ single ∧ single ≤ 3) :
    yearStart (400 * cycle + 100 * century + 4 * four + single + 1) =
      146097 * cycle + 36524 * century + 1461 * four + 365 * (single + 1) +
        if single = 3 ∧ (four = 24 → century = 3) then 1 else 0 := by
  unfold yearStart
  split
  · next h =>
    by_cases hfour' : four = 24
    · obtain rfl := h.2 hfour'
      omega
    · omega
  · next h =>
    by_cases hsingle' : single = 3
    · omega
    · omega

theorem yearOf_spec (days : Int) : yearStart (yearOf days).1 + (yearOf days).2 = days ∧
    0 ≤ (yearOf days).2 ∧ days < yearStart ((yearOf days).1 + 1) := by
  unfold yearOf
  simp only
  generalize hcentury : min (days % 146097 / 36524) 3 = century
  generalize hrest : days % 146097 - 36524 * century = rest
  generalize hsingle : min (rest % 1461 / 365) 3 = single
  have hc : 0 ≤ century ∧ century ≤ 3 := by omega
  have hf : 0 ≤ rest / 1461 ∧ rest / 1461 ≤ 24 := by omega
  have hs : 0 ≤ single ∧ single ≤ 3 := by omega
  rw [yearStart_eq hc hf hs, yearStart_succ hc hf hs]
  refine ⟨by omega, by omega, ?_⟩
  split <;> omega

/-! ## Months -/

/-- The days from 1 March of year 0 to the first day of a month, which is numbered from then on. -/
def monthStart (month : Int) : Int := yearStart (month / 12) + (153 * (month % 12) + 2) / 5

theorem monthStart_eq (year month : Int) (h : 0 ≤ month) (h' : month < 12) :
    monthStart (12 * year + month) = yearStart year + (153 * month + 2) / 5 := by
  have hdiv : (12 * year + month) / 12 = year := by omega
  have hmod : (12 * year + month) % 12 = month := by omega
  rw [monthStart, hdiv, hmod]

theorem monthStart_bounds (month : Int) :
    monthStart month < monthStart (month + 1) ∧ monthStart (month + 1) ≤ monthStart month + 31 := by
  have hyear := yearStart_bounds (month / 12)
  unfold monthStart
  by_cases hlast : month % 12 = 11
  · have hdiv : (month + 1) / 12 = month / 12 + 1 := by omega
    have hmod : (month + 1) % 12 = 0 := by omega
    rw [hdiv, hmod, hlast]
    omega
  · have hdiv : (month + 1) / 12 = month / 12 := by omega
    have hmod : (month + 1) % 12 = month % 12 + 1 := by omega
    rw [hdiv, hmod]
    omega

theorem monthStart_mono {month month' : Int} (h : month ≤ month') :
    monthStart month ≤ monthStart month' :=
  (strictMono_int_of_lt_succ fun month => (monthStart_bounds month).1).monotone h

/-- A day between the first days of two months belongs to an earlier month, or to the same one. -/
theorem month_le_of_days_le {month month' days days' : Int} (h : days ≤ days')
    (hstart : monthStart month ≤ days) (hend : days' < monthStart (month' + 1)) :
    month ≤ month' := by
  by_contra hlt
  have hmono := monthStart_mono (show month' + 1 ≤ month by omega)
  omega

theorem dayNumber_eq (year month day : Int) : dayNumber year month day =
    monthStart (12 * year + (month - 3)) + (day - 1) - epochDay := by
  simp (disch := decide) only [dayNumber, monthStart, yearStart, Int.fdiv_eq_ediv_of_nonneg,
    Int.fmod_eq_emod_of_nonneg]

/-! ## Dates -/

/-- The date is that of a day: its month is one of twelve and has that many days. -/
structure IsDate (year month day : Int) : Prop where
  month_pos : 1 ≤ month
  month_le : month ≤ 12
  day_pos : 1 ≤ day
  day_lt : dayNumber year month day < dayNumber year (month + 1) 1

theorem dateOf_eq (n : Int) : dateOf n =
    let date := yearOf (n + epochDay)
    let month := (5 * date.2 + 2) / 153
    let day := date.2 - (153 * month + 2) / 5 + 1
    if month < 10 then (date.1, month + 3, day) else (date.1 + 1, month - 9, day) := by
  simp (disch := decide) only [dateOf, yearOf, Int.fdiv_eq_ediv_of_nonneg,
    Int.fmod_eq_emod_of_nonneg]
  rfl

/-- The date of a day names the month in which the day is. -/
theorem exists_dateOf_eq (n : Int) : ∃ year month day : Int, 0 ≤ month ∧ month ≤ 11 ∧ 1 ≤ day ∧
    monthStart (12 * year + month) + (day - 1) = n + epochDay ∧
    n + epochDay < monthStart (12 * year + month + 1) ∧
    dateOf n = if month < 10 then (year, month + 3, day) else (year + 1, month - 9, day) := by
  obtain ⟨hstart, hnonneg, hend⟩ := yearOf_spec (n + epochDay)
  rw [dateOf_eq]
  generalize yearOf (n + epochDay) = date at hstart hnonneg hend ⊢
  obtain ⟨year, rest⟩ := date
  simp only at hstart hnonneg hend ⊢
  have hyear := yearStart_bounds year
  have hmonth := monthStart_eq year ((5 * rest + 2) / 153) (by omega) (by omega)
  refine ⟨year, (5 * rest + 2) / 153, _, by omega, by omega, ?_, by omega, ?_, rfl⟩
  · omega
  · by_cases hlast : (5 * rest + 2) / 153 = 11
    · have hnext := monthStart_eq (year + 1) 0 (by omega) (by omega)
      rw [hlast, show 12 * year + 11 + 1 = 12 * (year + 1) + 0 by omega, hnext]
      omega
    · rw [Int.add_assoc, monthStart_eq year _ (by omega) (by omega)]
      omega

theorem isDate_dateOf (n : Int) : IsDate (dateOf n).1 (dateOf n).2.1 (dateOf n).2.2 ∧
    dayNumber (dateOf n).1 (dateOf n).2.1 (dateOf n).2.2 = n := by
  obtain ⟨year, month, day, hmonth, hmonth', hday, hstart, hend, hdate⟩ := exists_dateOf_eq n
  -- January and February belong to the year that started in the March before.
  have hdays : ∀ {y m : Int}, 12 * y + (m - 3) = 12 * year + month → 1 ≤ m → m ≤ 12 →
      IsDate y m day ∧ dayNumber y m day = n := by
    intro y m hnumber hm hm'
    have hday' : dayNumber y m day = n := by
      rw [dayNumber_eq, hnumber]
      omega
    refine ⟨⟨hm, hm', hday, ?_⟩, hday'⟩
    rw [hday', dayNumber_eq, show 12 * y + (m + 1 - 3) = 12 * year + month + 1 by omega]
    omega
  rw [hdate]
  split
  · exact hdays (by simp only; omega) (by simp only; omega) (by simp only; omega)
  · exact hdays (by simp only; omega) (by simp only; omega) (by simp only; omega)

theorem IsDate.lt_of_dayNumber_lt {year month day year' month' day' : Int}
    (h : IsDate year month day) (h' : IsDate year' month' day')
    (hlt : dayNumber year month day < dayNumber year' month' day') :
    year < year' ∨ year = year' ∧ (month < month' ∨ month = month' ∧ day < day') := by
  have hday := h.day_pos
  have hday' := h'.day_pos
  have hend := h'.day_lt
  simp only [dayNumber_eq] at hlt hend
  have hdays : monthStart (12 * year + (month - 3)) + (day - 1) ≤
      monthStart (12 * year' + (month' - 3)) + (day' - 1) := by omega
  have hnumber : 12 * year + (month - 3) ≤ 12 * year' + (month' - 3) := by
    refine month_le_of_days_le hdays (by omega) ?_
    rw [show 12 * year' + (month' - 3) + 1 = 12 * year' + (month' + 1 - 3) by omega]
    omega
  have hmonths := And.intro h.month_pos h.month_le
  have hmonths' := And.intro h'.month_pos h'.month_le
  by_cases heq : 12 * year + (month - 3) = 12 * year' + (month' - 3)
  · rw [heq] at hlt
    omega
  · omega

theorem IsDate.day_le {year month day : Int} (h : IsDate year month day) : day ≤ 31 := by
  have hday := h.day_lt
  have hmonth := (monthStart_bounds (12 * year + (month - 3))).2
  simp only [dayNumber_eq] at hday
  rw [show 12 * year + (month + 1 - 3) = 12 * year + (month - 3) + 1 by omega] at hday
  omega

theorem year_dateOf_bounds (n : Int) : 400 * ((n + epochDay) / 146097) ≤ (dateOf n).1 ∧
    (dateOf n).1 ≤ 400 * ((n + epochDay) / 146097) + 400 := by
  have hyear : 400 * ((n + epochDay) / 146097) ≤ (yearOf (n + epochDay)).1 ∧
      (yearOf (n + epochDay)).1 < 400 * ((n + epochDay) / 146097) + 400 := by
    simp only [yearOf]
    omega
  rw [dateOf_eq]
  simp only
  split <;> omega

/-! ## Stamps -/

/-- The fields of a stamp, the largest unit first. -/
def Stamp.fields (s : Stamp) : List Int :=
  [s.year, s.month, s.day, s.hour, s.minute, s.second]

theorem stampOf_eq (t : Int) : stampOf t =
    ⟨(dateOf (t / 86400)).1, (dateOf (t / 86400)).2.1, (dateOf (t / 86400)).2.2,
      t % 86400 / 3600, t % 86400 % 3600 / 60, t % 86400 % 60⟩ := by
  simp (disch := decide) only [stampOf, Int.fdiv_eq_ediv_of_nonneg, Int.fmod_eq_emod_of_nonneg]

/-- The fields of a date and a time of day, of which the year has at most four digits. -/
structure Stamp.InRange (s : Stamp) : Prop where
  year : 0 ≤ s.year ∧ s.year < 10 ^ 4
  month : 1 ≤ s.month ∧ s.month ≤ 12
  day : 1 ≤ s.day ∧ s.day ≤ 31
  hour : 0 ≤ s.hour ∧ s.hour < 24
  minute : 0 ≤ s.minute ∧ s.minute < 60
  second : 0 ≤ s.second ∧ s.second < 60

theorem inRange_stampOf {t : Int} (h : t.natAbs ≤ lastSecond) : (stampOf t).InRange := by
  have hdate := (isDate_dateOf (t / 86400)).1
  have hyear := year_dateOf_bounds (t / 86400)
  unfold lastSecond at h
  rw [epochDay] at hyear
  rw [stampOf_eq]
  exact ⟨by simp only; omega, ⟨hdate.month_pos, hdate.month_le⟩, ⟨hdate.day_pos, hdate.day_le⟩,
    by simp only; omega, by simp only; omega, by simp only; omega⟩

/-- A stamp is read as the second that it was made for. -/
theorem seconds_stampOf (t : Int) : (stampOf t).seconds = t := by
  simp only [Stamp.seconds, stampOf_eq, (isDate_dateOf _).2]
  omega

/-- Seconds come in the order of their stamps. -/
theorem fields_stampOf_lt {t u : Int} (h : t < u) : (stampOf t).fields < (stampOf u).fields := by
  simp only [stampOf_eq, Stamp.fields, List.cons_lt_cons_iff, List.lt_irrefl, and_false, or_false]
  by_cases hday : t / 86400 = u / 86400
  · rw [hday]
    simp only [Int.lt_irrefl, true_and, false_or]
    omega
  · have hdate := (isDate_dateOf (t / 86400)).1.lt_of_dayNumber_lt (isDate_dateOf (u / 86400)).1
      (by rw [(isDate_dateOf _).2, (isDate_dateOf _).2]; omega)
    exact hdate.imp_right fun h => h.imp_right fun h => h.imp_right fun h => h.imp_right Or.inl

end Time

end Triage
