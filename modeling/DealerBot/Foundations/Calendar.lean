import Mathlib.Data.Int.Basic
import Mathlib.Order.Basic

/-!
# The Gregorian Calendar

Days are counted from 1 January 1970. For counting, a year begins on 1 March: the leap day
is then the last day of its year, and the months before it are all counted alike.

- `days_ofDays`: the date that is found for a day is the date of this day
-/

namespace DealerBot.Foundations.Calendar

/-! ## §1 Years -/

/-- The days from 1 March of the year 0 to 1 March of the given year. -/
def daysBefore (year : Int) : Int := 365 * year + year / 4 - year / 100 + year / 400

/-- The year, and the day of the year, that a number of days after 1 March of the year 0
    leads to. -/
def yearOf (z : Int) : Int × Int :=
  let doe := z % 146097
  -- the last century and the last year of four are one day longer
  let century := min (doe / 36524) 3
  let doc := doe - 36524 * century
  let doq := doc % 1461
  let year := min (doq / 365) 3
  (400 * (z / 146097) + 100 * century + 4 * (doc / 1461) + year, doq - 365 * year)

/-- A leap day for every four years, but for three of four centuries. -/
theorem daysBefore_eq {era century quad year : Int} (hcentury : 0 ≤ century ∧ century ≤ 3)
    (hquad : 0 ≤ quad ∧ quad ≤ 24) (hyear : 0 ≤ year ∧ year ≤ 3) :
    daysBefore (400 * era + 100 * century + 4 * quad + year) =
      146097 * era + 36524 * century + 1461 * quad + 365 * year := by
  have h₄ : (400 * era + 100 * century + 4 * quad + year) / 4 =
      100 * era + 25 * century + quad := by omega
  have h₁₀₀ : (400 * era + 100 * century + 4 * quad + year) / 100 = 4 * era + century := by omega
  have h₄₀₀ : (400 * era + 100 * century + 4 * quad + year) / 400 = era := by omega
  rw [daysBefore, h₄, h₁₀₀, h₄₀₀]
  omega

/-- The day lies in the year that is found for it. -/
theorem yearOf_eq (z : Int) :
    daysBefore (yearOf z).1 + (yearOf z).2 = z ∧ 0 ≤ (yearOf z).2 ∧ (yearOf z).2 < 366 := by
  unfold yearOf
  dsimp only
  generalize hcentury : min (z % 146097 / 36524) 3 = century
  generalize hdoc : z % 146097 - 36524 * century = doc
  generalize hyear : min (doc % 1461 / 365) 3 = year
  have hdoc' : 0 ≤ doc ∧ doc ≤ 36524 := by omega
  rw [daysBefore_eq (by omega) (by omega) (by omega)]
  omega

/-! ## §2 Dates -/

/-- A date; January and the first day of a month are number 0. -/
structure Date where
  year : Int
  month : Fin 12
  day : Fin 31
  deriving DecidableEq, Repr

/-- The days of a year that begins in March before its month number `m`: months of 31 and
    30 days alternate, and start again with every fifth one. -/
def daysBeforeMonth (m : Int) : Int := (153 * m + 2) / 5

/-- The day of a date. -/
def Date.days (d : Date) : Int :=
  let m : Int := ((d.month : Nat) + 10) % 12
  let year := if (d.month : Nat) < 2 then d.year - 1 else d.year
  daysBefore year + daysBeforeMonth m + (d.day : Nat) - 719468

/-- The month and the day of the month are within their bounds. -/
theorem monthOf_bounds {doy : Int} (h₀ : 0 ≤ doy) (h : doy < 366) :
    0 ≤ (5 * doy + 2) / 153 ∧ (5 * doy + 2) / 153 < 12 ∧
      0 ≤ doy - daysBeforeMonth ((5 * doy + 2) / 153) ∧
      doy - daysBeforeMonth ((5 * doy + 2) / 153) < 31 := by
  unfold daysBeforeMonth
  omega

/-- The date of a day. -/
def ofDays (n : Int) : Date :=
  let doy := (yearOf (n + 719468)).2
  let m := (5 * doy + 2) / 153
  let year := (yearOf (n + 719468)).1
  have hdoy := (yearOf_eq (n + 719468)).2
  have hday : 0 ≤ doy - daysBeforeMonth m ∧ doy - daysBeforeMonth m < 31 :=
    (monthOf_bounds hdoy.1 hdoy.2).2.2
  { year := if m < 10 then year else year + 1
    month := ⟨(m.toNat + 2) % 12, Nat.mod_lt _ (by decide)⟩
    day := ⟨(doy - daysBeforeMonth m).toNat, by omega⟩ }

/-- **The date of a day is right.** -/
theorem days_ofDays (n : Int) : (ofDays n).days = n := by
  obtain ⟨hyear, hdoy₀, hdoy⟩ := yearOf_eq (n + 719468)
  obtain ⟨hm₀, hm, hday₀, -⟩ := monthOf_bounds hdoy₀ hdoy
  generalize hdef : (5 * (yearOf (n + 719468)).2 + 2) / 153 = m at hm₀ hm hday₀
  -- months from March on belong to the year, January and February to the next one
  by_cases hlast : m < 10
  · have hmonth : (m.toNat + 2) % 12 = m.toNat + 2 := Nat.mod_eq_of_lt (by omega)
    have hback : (((m.toNat + 2 : Nat) : Int) + 10) % 12 = m := by omega
    have hlate : ¬ m.toNat + 2 < 2 := by omega
    simp only [ofDays, Date.days, hdef, hmonth, hback, hlast, hlate, if_true, if_false,
      Int.toNat_of_nonneg hday₀]
    omega
  · have hmonth : (m.toNat + 2) % 12 = m.toNat - 10 := by omega
    have hback : (((m.toNat - 10 : Nat) : Int) + 10) % 12 = m := by omega
    have hearly : m.toNat - 10 < 2 := by omega
    simp only [ofDays, Date.days, hdef, hmonth, hback, hlast, hearly, if_true, if_false,
      Int.toNat_of_nonneg hday₀, Int.add_sub_cancel]
    omega

/-- The day of the week, from Sunday on. -/
def weekday (n : Int) : Fin 7 := ⟨((n + 4) % 7).toNat, by omega⟩

example : ofDays 0 = ⟨1970, 0, 0⟩ ∧ weekday 0 = 4 := by decide

example : ofDays 11016 = ⟨2000, 1, 28⟩ ∧ weekday 11016 = 2 := by decide

end DealerBot.Foundations.Calendar
