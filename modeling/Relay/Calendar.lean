import Relay.Model.Config

/-!
# Civil dates

`Time.civil` gives the year, month and day of a day number; here is the way back.

* `fromCivil_civil`: a date determines its day;
* `gregorian`: the day of three numbers, if they are a date;
* `gregorian_swapped`: day and month in the wrong order are a day far away, or no date.
-/

namespace Relay.Time

/-- The year of an era in which a day falls, when years start in March. -/
def yearOfEra (doe : ℤ) : ℤ := (doe - doe / 1460 + doe / 36524 - doe / 146096) / 365

/-- The day of such a year. -/
def dayOfYear (doe : ℤ) : ℤ := doe - (365 * yearOfEra doe + yearOfEra doe / 4 - yearOfEra doe / 100)

theorem civil_eq (day : ℤ) : civil day =
    (yearOfEra ((day + 719468) % 146097) + (day + 719468) / 146097 * 400 +
        (if (if (5 * dayOfYear ((day + 719468) % 146097) + 2) / 153 < 10 then
          (5 * dayOfYear ((day + 719468) % 146097) + 2) / 153 + 3
          else (5 * dayOfYear ((day + 719468) % 146097) + 2) / 153 - 9) ≤ 2 then 1 else 0),
      (if (5 * dayOfYear ((day + 719468) % 146097) + 2) / 153 < 10 then
        (5 * dayOfYear ((day + 719468) % 146097) + 2) / 153 + 3
        else (5 * dayOfYear ((day + 719468) % 146097) + 2) / 153 - 9),
      dayOfYear ((day + 719468) % 146097) -
        (153 * ((5 * dayOfYear ((day + 719468) % 146097) + 2) / 153) + 2) / 5 + 1) := rfl

/-- An era has 400 years of 365 or 366 days. -/
theorem yearOfEra_bounds (doe : ℤ) (hpos : 0 ≤ doe) (hlt : doe < 146097) :
    0 ≤ yearOfEra doe ∧ yearOfEra doe ≤ 399 ∧ 0 ≤ dayOfYear doe ∧ dayOfYear doe ≤ 365 := by
  unfold dayOfYear yearOfEra
  by_cases hlast : doe = 146096
  · subst hlast
    decide
  -- the century, the four years and the year
  obtain ⟨c, r, rfl, hr0, hr1, hc0, hc3⟩ : ∃ c r : ℤ, doe = 36524 * c + r ∧ 0 ≤ r ∧ r < 36524 ∧
      0 ≤ c ∧ c ≤ 3 :=
    ⟨doe / 36524, doe % 36524, by omega, by omega, by omega, by omega, by omega⟩
  obtain ⟨q, s, rfl, hs0, hs1, hq0, hq1⟩ : ∃ q s : ℤ, r = 1461 * q + s ∧ 0 ≤ s ∧ s < 1461 ∧
      0 ≤ q ∧ q ≤ 24 :=
    ⟨r / 1461, r % 1461, by omega, by omega, by omega, by omega, by omega⟩
  have hcentury : (36524 * c + (1461 * q + s)) / 36524 = c := by omega
  have hera : (36524 * c + (1461 * q + s)) / 146096 = 0 := by omega
  obtain ⟨e, hfour, he0, he1, hes⟩ : ∃ e, (36524 * c + (1461 * q + s)) / 1460 = 25 * c + q + e ∧
      0 ≤ e ∧ e ≤ 1 ∧ 1460 * e ≤ 24 * c + q + s :=
    ⟨(24 * c + q + s) / 1460, by omega, by omega, by omega, by omega⟩
  rw [hcentury, hera, hfour]
  obtain ⟨j, hj, hj0, hj3, hlo, hhi⟩ : ∃ j, (36524 * c + (1461 * q + s) - (25 * c + q + e) + c - 0) / 365 =
      100 * c + 4 * q + j ∧ 0 ≤ j ∧ j ≤ 3 ∧ 365 * j ≤ s ∧ s ≤ 365 * j + 365 :=
    ⟨(s - e) / 365, by omega, by omega, by omega, by omega, by omega⟩
  have hleap : (100 * c + 4 * q + j) / 4 = 25 * c + q := by omega
  have hcommon : (100 * c + 4 * q + j) / 100 = c := by omega
  rw [hj, hleap, hcommon]
  omega

/-- The days before a year that starts in March. -/
def yearStart (y : ℤ) : ℤ := 365 * y + y / 4 - y / 100 + y / 400

theorem yearStart_era {yoe : ℤ} (era : ℤ) (hpos : 0 ≤ yoe) (hle : yoe ≤ 399) :
    yearStart (yoe + era * 400) = era * 146097 + 365 * yoe + yoe / 4 - yoe / 100 := by
  have hleap : (yoe + era * 400) / 4 = yoe / 4 + era * 100 := by omega
  have hcommon : (yoe + era * 400) / 100 = yoe / 100 + era * 4 := by omega
  have hera : (yoe + era * 400) / 400 = era := by omega
  unfold yearStart
  rw [hleap, hcommon, hera]
  omega

/-- The day number of a date. -/
def fromCivil (y m d : ℤ) : ℤ :=
  if m ≤ 2 then yearStart (y - 1) + (153 * (m + 9) + 2) / 5 + d - 719469
  else yearStart y + (153 * (m - 3) + 2) / 5 + d - 719469

theorem civil_bounds (day : ℤ) : 1 ≤ (civil day).2.1 ∧ (civil day).2.1 ≤ 12 ∧
    1 ≤ (civil day).2.2 ∧ (civil day).2.2 ≤ 31 := by
  obtain ⟨-, -, hdoy0, hdoy1⟩ := yearOfEra_bounds ((day + 719468) % 146097) (by omega) (by omega)
  rw [civil_eq]
  simp only
  generalize dayOfYear ((day + 719468) % 146097) = doy at hdoy0 hdoy1 ⊢
  split <;> omega

/-- **A date determines its day.** -/
theorem fromCivil_civil (day : ℤ) :
    fromCivil (civil day).1 (civil day).2.1 (civil day).2.2 = day := by
  obtain ⟨hyoe0, hyoe1, hdoy0, hdoy1⟩ :=
    yearOfEra_bounds ((day + 719468) % 146097) (by omega) (by omega)
  have hdoe : (day + 719468) % 146097 = 365 * yearOfEra ((day + 719468) % 146097) +
      yearOfEra ((day + 719468) % 146097) / 4 - yearOfEra ((day + 719468) % 146097) / 100 +
      dayOfYear ((day + 719468) % 146097) := by
    unfold dayOfYear
    omega
  have hstart := yearStart_era ((day + 719468) / 146097) hyoe0 hyoe1
  rw [civil_eq]
  unfold fromCivil
  simp only
  generalize hy : yearOfEra ((day + 719468) % 146097) = yoe at *
  generalize hd : dayOfYear ((day + 719468) % 146097) = doy at *
  by_cases hmonth : (5 * doy + 2) / 153 < 10
  · have hyear : yoe + (day + 719468) / 146097 * 400 +
        (if (5 * doy + 2) / 153 + 3 ≤ 2 then 1 else 0) = yoe + (day + 719468) / 146097 * 400 := by
      rw [if_neg (by omega), add_zero]
    rw [if_pos hmonth, if_neg (by omega), hyear, hstart]
    omega
  · have hyear : yoe + (day + 719468) / 146097 * 400 +
        (if (5 * doy + 2) / 153 - 9 ≤ 2 then 1 else 0) - 1 = yoe + (day + 719468) / 146097 * 400 := by
      rw [if_pos (by omega), add_sub_cancel_right]
    rw [if_neg hmonth, if_pos (by omega), hyear, hstart]
    omega

/-! ### The Gregorian calendar -/

/-- The day of a year, a month and a day of the month, if there is one. -/
def gregorian (y m d : ℕ) : Option ℤ :=
  if civil (fromCivil y m d) = ((y : ℤ), (m : ℤ), (d : ℤ)) then some (fromCivil y m d) else none

/-- The numbers of a day are read back. -/
theorem gregorian_civil {day : ℤ} {y m d : ℕ} (h : civil day = ((y : ℤ), (m : ℤ), (d : ℤ))) :
    gregorian y m d = some day := by
  have hday := fromCivil_civil day
  rw [h] at hday
  unfold gregorian
  rw [hday, if_pos h]

theorem civil_of_gregorian {day : ℤ} {y m d : ℕ} (h : gregorian y m d = some day) :
    civil day = ((y : ℤ), (m : ℤ), (d : ℤ)) := by
  unfold gregorian at h
  split at h
  · rename_i hcivil
    cases h
    exact hcivil
  · cases h

/-- **Day and month in the wrong order are a day far away**, or no date. -/
theorem gregorian_swapped {day day' : ℤ} {y m d : ℕ} (hne : m ≠ d) (h : gregorian y m d = some day)
    (h' : gregorian y d m = some day') : 2 ≤ |day' - day| := by
  have hcivil := civil_of_gregorian h
  have hcivil' := civil_of_gregorian h'
  have hbounds := civil_bounds day
  have hbounds' := civil_bounds day'
  have hday := fromCivil_civil day
  have hday' := fromCivil_civil day'
  rw [hcivil] at hbounds hday
  rw [hcivil'] at hbounds' hday'
  simp only at hbounds hbounds' hday hday'
  have hyear : 365 ≤ yearStart y - yearStart (y - 1) ∧ yearStart y - yearStart (y - 1) ≤ 366 := by
    unfold yearStart
    omega
  unfold fromCivil at hday hday'
  generalize yearStart (y : ℤ) = a at *
  generalize yearStart ((y : ℤ) - 1) = b at *
  rw [le_abs]
  split at hday <;> split at hday' <;> omega

end Relay.Time
