import LiveHls.Timestamp
/-! The calendar. Every day has a date, and the date has only this day: the month begins so many days
before it as the day of the month tells. -/
namespace LiveHls.Timestamp

/-- Whole years of an era before a day of it. The day falls into the year behind them. -/
theorem yearOfEra_bounds {day year : Nat} (within : day < 146097)
    (whole : year = (day - day / 1460 + day / 36524 - day / 146096) / 365) :
    year < 400 ∧ 365 * year + year / 4 - year / 100 ≤ day ∧
      day ≤ 365 * year + year / 4 - year / 100 + 365 := by
  by_cases last : day = 146096
  · subst last
    subst whole
    decide
  · obtain ⟨century, rest, rfl, short, few⟩ : ∃ century rest, day = 36524 * century + rest ∧
        rest < 36524 ∧ century < 4 := ⟨day / 36524, day % 36524, by omega, by omega, by omega⟩
    obtain ⟨cycle, left, split, bound⟩ : ∃ cycle left,
        24 * century + rest = 1460 * cycle + left ∧ left < 1460 :=
      ⟨(24 * century + rest) / 1460, (24 * century + rest) % 1460, by omega, by omega⟩
    have cycles : (36524 * century + rest) / 1460 = 25 * century + cycle := by omega
    have centuries : (36524 * century + rest) / 36524 = century := by omega
    have eras : (36524 * century + rest) / 146096 = 0 := by omega
    rw [cycles, centuries, eras] at whole
    -- The year starts a cycle of four, stands inside it, or is the leap year that ends it.
    obtain ⟨y, years⟩ : ∃ y, year + 1 = 100 * century + 4 * cycle + y ∧ y ≤ 4 :=
      ⟨year + 1 - 100 * century - 4 * cycle, by omega, by omega⟩
    have place : y = 0 ∨ y = 1 ∨ y = 2 ∨ y = 3 ∨ y = 4 := by omega
    rcases place with rfl | rfl | rfl | rfl | rfl
    all_goals omega

/-- The first of a month, counted from the March before it and from the start of its era. -/
theorem firstOfMonth_of_march (era : Int) {year march month : Nat} (inEra : year < 400)
    (inYear : march < 12) (named : month = if march < 10 then march + 3 else march - 9) :
    firstOfMonth (if month ≤ 2 then year + era * 400 + 1 else year + era * 400) month =
      era * 146097 + (365 * year + year / 4 - year / 100 + (153 * march + 2) / 5 : Nat)
        - 719468 := by
  have before : (if month ≤ 2 then (if month ≤ 2 then year + era * 400 + 1
      else year + era * 400) - 1 else if month ≤ 2 then year + era * 400 + 1
      else year + era * 400) = (year + era * 400 : Int) := by
    split <;> omega
  have same : (if month ≤ 2 then month + 9 else month - 3) = march := by
    split at named <;> split <;> omega
  have eras : Int.fdiv (year + era * 400) 400 = era := by
    rw [Int.fdiv_eq_ediv_of_nonneg _ (by omega)]
    omega
  have fours := Int.fdiv_eq_ediv_of_nonneg (year + era * 400 - era * 400) (show 0 ≤ 4 by omega)
  have hundreds :=
    Int.fdiv_eq_ediv_of_nonneg (year + era * 400 - era * 400) (show 0 ≤ 100 by omega)
  rw [firstOfMonth]
  simp only [before, same, eras, fours, hundreds]
  omega

/-- A date that is on the calendar, and the day that it stands for. -/
structure IsDate (date : Int × Nat × Nat) (day : Int) : Prop where
  month : 1 ≤ date.2.1 ∧ date.2.1 ≤ 12
  dayOfMonth : 1 ≤ date.2.2 ∧ date.2.2 ≤ 31
  begins : firstOfMonth date.1 date.2.1 + (date.2.2 - 1 : Nat) = day
  years : 365 * date.1.natAbs ≤ day.natAbs + 719834

theorem civil_isDate (day : Int) : IsDate (civil day) day := by
  obtain ⟨era, dayOfEra, split, within⟩ : ∃ era : Int, ∃ dayOfEra : Nat,
      day + 719468 = era * 146097 + dayOfEra ∧ dayOfEra < 146097 :=
    ⟨(day + 719468) / 146097, ((day + 719468) % 146097).toNat, by omega, by omega⟩
  have eras : Int.fdiv (day + 719468) 146097 = era := by
    rw [Int.fdiv_eq_ediv_of_nonneg _ (by omega)]
    omega
  have left : (day + 719468 - era * 146097).toNat = dayOfEra := by omega
  obtain ⟨inEra, started, ends⟩ := yearOfEra_bounds within rfl
  rw [civil]
  simp only [eras, left]
  generalize (dayOfEra - dayOfEra / 1460 + dayOfEra / 36524 - dayOfEra / 146096) / 365 = year
    at inEra started ends ⊢
  generalize passed : dayOfEra - (365 * year + year / 4 - year / 100) = dayOfYear
  have inYear : (5 * dayOfYear + 2) / 153 < 12 := by omega
  have first := firstOfMonth_of_march era inEra inYear rfl
  generalize march : (5 * dayOfYear + 2) / 153 = m at inYear first ⊢
  constructor
  · dsimp only
    split <;> omega
  · dsimp only
    omega
  · dsimp only
    rw [first]
    omega
  · dsimp only
    split <;> omega

end LiveHls.Timestamp
