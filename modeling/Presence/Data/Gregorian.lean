import Mathlib.Algebra.Order.Ring.Int
import Mathlib.Order.SuccPred.LinearLocallyFinite
import Mathlib.Tactic.IntervalCases

namespace Presence.Data

/-! The Gregorian calendar, before its introduction too.

A date has a next date; that step is the calendar.  The number of a date counts the
days from the first one of 1970, so that dates are ordered and told apart by their
numbers.
-/

@[ext] structure Date where
  year : Int
  month : Nat
  day : Nat
deriving DecidableEq, Repr

def IsLeapYear (year : Int) : Prop := year % 4 = 0 ∧ (year % 100 ≠ 0 ∨ year % 400 = 0)

instance (year : Int) : Decidable (IsLeapYear year) := inferInstanceAs (Decidable (_ ∧ _))

def monthLength (year : Int) (month : Nat) : Nat :=
  if month = 2 then if IsLeapYear year then 29 else 28
  else if month = 4 ∨ month = 6 ∨ month = 9 ∨ month = 11 then 30
  else 31

/-- The days of a year before a month of it. -/
def monthStart (year : Int) : Nat → Nat
  | 0 => 0
  | month + 1 => monthStart year month + if month = 0 then 0 else monthLength year month

/-- The days from the beginning of 1970 to that of a year. -/
def yearStart (year : Int) : Int :=
  365 * (year - 1970) + (year - 1) / 4 - (year - 1) / 100 + (year - 1) / 400 - 477

namespace Date

structure Valid (date : Date) : Prop where
  month : 1 ≤ date.month ∧ date.month ≤ 12
  day : 1 ≤ date.day ∧ date.day ≤ monthLength date.year date.month

instance (date : Date) : Decidable date.Valid :=
  decidable_of_iff ((1 ≤ date.month ∧ date.month ≤ 12) ∧
      1 ≤ date.day ∧ date.day ≤ monthLength date.year date.month)
    ⟨fun valid => ⟨valid.1, valid.2⟩, fun valid => ⟨valid.month, valid.day⟩⟩

def next (date : Date) : Date :=
  if date.day < monthLength date.year date.month then { date with day := date.day + 1 }
  else if date.month < 12 then ⟨date.year, date.month + 1, 1⟩
  else ⟨date.year + 1, 1, 1⟩

def epoch : Date := ⟨1970, 1, 1⟩

def number (date : Date) : Int :=
  yearStart date.year + monthStart date.year date.month + date.day - 1

def Before (date other : Date) : Prop :=
  date.year < other.year ∨ date.year = other.year ∧
    (date.month < other.month ∨ date.month = other.month ∧ date.day < other.day)

end Date

theorem monthLength_pos (year : Int) (month : Nat) : 28 ≤ monthLength year month := by
  simp only [monthLength]
  split <;> split <;> decide

theorem monthStart_succ (year : Int) {month : Nat} (positive : 1 ≤ month) :
    monthStart year (month + 1) = monthStart year month + monthLength year month := by
  rw [monthStart, if_neg (by omega)]

theorem monthStart_mono (year : Int) : Monotone (monthStart year) :=
  monotone_nat_of_le_succ fun _ => Nat.le_add_right _ _

/-- The twelve months make up the year. -/
theorem monthStart_thirteen (year : Int) :
    monthStart year 13 = if IsLeapYear year then 366 else 365 := by
  by_cases leap : IsLeapYear year <;> simp [monthStart, monthLength, leap]

/-- From March on, where a month is 30 or 31 days long in turns. -/
theorem monthStart_march (year : Int) {months : Nat} (within : months ≤ 9) :
    monthStart year (months + 3) =
      (if IsLeapYear year then 60 else 59) + (153 * months + 2) / 5 := by
  interval_cases months <;> by_cases leap : IsLeapYear year <;>
    simp [monthStart, monthLength, leap]

theorem yearStart_succ (year : Int) : yearStart (year + 1) = yearStart year + monthStart year 13 := by
  rw [monthStart_thirteen]
  simp only [yearStart]
  by_cases leap : IsLeapYear year
  · rw [if_pos leap]
    simp only [IsLeapYear] at leap
    omega
  · rw [if_neg leap]
    simp only [IsLeapYear] at leap
    omega

theorem yearStart_mono {year later : Int} (order : year ≤ later) : yearStart year ≤ yearStart later := by
  have mono : Monotone yearStart := by
    apply monotone_int_of_le_succ
    intro year
    rw [yearStart_succ]
    omega
  exact mono order

namespace Date

variable {date other : Date}

theorem valid_epoch : epoch.Valid := by decide

theorem number_epoch : epoch.number = 0 := by decide

theorem Valid.next (valid : date.Valid) : date.next.Valid := by
  obtain ⟨month, day⟩ := valid
  rw [Date.next]
  split
  case isTrue inside => exact ⟨month, by simp, inside⟩
  case isFalse =>
    split
    case isTrue inside =>
      have long : 1 ≤ monthLength date.year (date.month + 1) :=
        (monthLength_pos _ _).trans' (by decide)
      exact ⟨⟨Nat.le_add_left 1 _, inside⟩, le_refl 1, long⟩
    case isFalse =>
      have long : 1 ≤ monthLength (date.year + 1) 1 := (monthLength_pos _ _).trans' (by decide)
      exact ⟨⟨le_refl 1, by simp⟩, le_refl 1, long⟩

theorem number_next (valid : date.Valid) : date.next.number = date.number + 1 := by
  obtain ⟨month, day⟩ := valid
  have succ := monthStart_succ date.year month.1
  rw [Date.next]
  split
  case isTrue =>
    simp only [number]
    omega
  case isFalse last =>
    split
    case isTrue =>
      simp only [number, succ]
      omega
    case isFalse =>
      have december : date.month = 12 := by omega
      have first : monthStart (date.year + 1) 1 = 0 := rfl
      rw [december] at succ day last
      simp only [number, first, yearStart_succ, succ, december]
      omega

/-- Within its year. -/
theorem number_bounds (valid : date.Valid) :
    yearStart date.year ≤ date.number ∧ date.number < yearStart (date.year + 1) := by
  obtain ⟨month, day⟩ := valid
  have succ := monthStart_succ date.year month.1
  have last : monthStart date.year (date.month + 1) ≤ monthStart date.year 13 :=
    monthStart_mono date.year (by omega)
  rw [yearStart_succ]
  simp only [number]
  omega

theorem number_lt_of_before (valid : date.Valid) (otherValid : other.Valid)
    (before : date.Before other) : date.number < other.number := by
  obtain year | ⟨year, month | ⟨month, day⟩⟩ := before
  · calc date.number < yearStart (date.year + 1) := (number_bounds valid).2
      _ ≤ yearStart other.year := yearStart_mono (by omega)
      _ ≤ other.number := (number_bounds otherValid).1
  · have succ := monthStart_succ date.year valid.month.1
    have later : monthStart date.year (date.month + 1) ≤ monthStart date.year other.month :=
      monthStart_mono date.year month
    have last := valid.day.2
    have first := otherValid.day.1
    simp only [number, ← year]
    omega
  · simp only [number, ← year, ← month]
    omega

theorem before_or_eq_or_before (date other : Date) :
    date.Before other ∨ date = other ∨ other.Before date := by
  obtain ⟨year, month, day⟩ := date
  obtain ⟨otherYear, otherMonth, otherDay⟩ := other
  simp only [Before, Date.mk.injEq]
  omega

theorem before_of_number_lt (valid : date.Valid) (otherValid : other.Valid)
    (less : date.number < other.number) : date.Before other := by
  rcases before_or_eq_or_before date other with before | same | after
  · exact before
  · rw [same] at less
    exact absurd less (lt_irrefl _)
  · exact absurd (number_lt_of_before otherValid valid after) (by omega)

theorem eq_of_number_eq (valid : date.Valid) (otherValid : other.Valid)
    (same : date.number = other.number) : date = other := by
  rcases before_or_eq_or_before date other with before | equal | after
  · exact absurd (number_lt_of_before valid otherValid before) (by omega)
  · exact equal
  · exact absurd (number_lt_of_before otherValid valid after) (by omega)

/-- So many days after the first one of 1970. -/
def afterEpoch (days : Nat) : Date := next^[days] epoch

theorem afterEpoch_spec (days : Nat) : (afterEpoch days).Valid ∧ (afterEpoch days).number = days := by
  induction days with
  | zero => exact ⟨valid_epoch, number_epoch⟩
  | succ days ih =>
      obtain ⟨valid, number⟩ := ih
      rw [afterEpoch, Function.iterate_succ_apply', ← afterEpoch]
      exact ⟨valid.next, by rw [number_next valid, number, Int.natCast_succ]⟩

theorem eq_afterEpoch {days : Nat} (valid : date.Valid) (number : date.number = days) :
    date = afterEpoch days := by
  have spec := afterEpoch_spec days
  exact eq_of_number_eq valid spec.1 (number.trans spec.2.symm)

end Date

end Presence.Data
