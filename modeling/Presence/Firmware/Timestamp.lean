import Presence.Data.Gregorian
import Presence.Firmware.WireText

namespace Presence.Firmware

open Presence.Data Presence.Gateway Presence.Go

/-! # The timestamp of a record

`formatRfc3339Utc` writes the date that lies so many days after the first one of 1970,
and the time of that day.
-/

def msPerDay : Int := 86400000

/-- The date of an instant of 1970 or later. -/
def dateOf (epochMs : Int) : Date := Date.afterEpoch (epochMs / msPerDay).toNat

/-! ## The date -/

theorem isLeap_iff (year : Int) : isLeap year = true ↔ IsLeapYear year := by
  simp [isLeap, IsLeapYear]

theorem daysIn_eq (year : Int) (month : Nat) : daysIn year month = monthLength year month := by
  have february : ((month : Int) = 2) ↔ month = 2 := by omega
  have short : ((month : Int) = 4 ∨ (month : Int) = 6 ∨ (month : Int) = 9 ∨ (month : Int) = 11) ↔
      (month = 4 ∨ month = 6 ∨ month = 9 ∨ month = 11) := by
    omega
  simp only [daysIn, monthLength, isLeap_iff, february, short]
  push_cast
  rfl

/-- The months of a year that starts in March, within the years that start in January. -/
theorem march_number {yoe doy mp : Int} {month day : Nat} (era : Int) (first : 0 ≤ mp) (last : mp ≤ 11)
    (hmonth : mp + (if mp < 10 then 3 else -9) = month)
    (hday : doy - (153 * mp + 2) / 5 + 1 = day) (range : 0 ≤ yoe ∧ yoe ≤ 399) :
    (Date.mk (yoe + era * 400 + if (month : Int) ≤ 2 then 1 else 0) month day).number =
      era * 146097 + (365 * yoe + yoe / 4 - yoe / 100) + doy - 719468 := by
  simp only [Date.number, yearStart]
  split at hmonth
  case isTrue spring =>
    obtain ⟨months, rfl⟩ := Int.eq_ofNat_of_zero_le first
    obtain rfl : month = months + 3 := by omega
    rw [if_neg (by omega), monthStart_march _ (by omega)]
    by_cases leap : IsLeapYear (yoe + era * 400 + 0)
    · rw [if_pos leap]
      simp only [IsLeapYear] at leap
      omega
    · rw [if_neg leap]
      simp only [IsLeapYear] at leap
      omega
  case isFalse =>
    -- January and February belong to the year before
    have winter : monthStart (yoe + era * 400 + if (month : Int) ≤ 2 then 1 else 0) month =
        31 * (month - 1) := by
      obtain rfl | rfl : month = 1 ∨ month = 2 := by omega
      · rfl
      · rfl
    rw [winter]
    omega

/-- Up to the year 9999 the date is the one of the calendar; after it only the year is
another. -/
theorem civil_date {epochMs : Int} (past : 0 ≤ epochMs) :
    civil epochMs =
      { year := min (dateOf epochMs).year 9999
        month := (dateOf epochMs).month
        day := (dateOf epochMs).day
        hour := epochMs % msPerDay / 3600000
        minute := epochMs % msPerDay / 60000 % 60
        second := epochMs % msPerDay / 1000 % 60
        milli := epochMs % msPerDay % 1000 } := by
  obtain ⟨z, era, doe, yoe, doy, mp, march⟩ := exists_fromMarch epochMs
  have yoeRange := march.yoe_range
  have doyRange := march.doy_range
  have mpRange := march.mp_range
  have monthRange := march.month_range
  have dayLow := march.one_le_day
  have dayHigh := day_le_daysIn era doyRange march.hmp
  obtain ⟨month, hmonth⟩ :=
    Int.eq_ofNat_of_zero_le (show 0 ≤ mp + if mp < 10 then 3 else -9 by omega)
  obtain ⟨day, hday⟩ := Int.eq_ofNat_of_zero_le (show 0 ≤ doy - (153 * mp + 2) / 5 + 1 by omega)
  have counted := march_number era mpRange.1 mpRange.2 hmonth hday yoeRange
  rw [hmonth] at monthRange dayHigh
  rw [hday, daysIn_eq] at dayHigh
  have inYear : 1 ≤ month ∧ month ≤ 12 := by omega
  have inMonth : 1 ≤ day ∧
      day ≤ monthLength (yoe + era * 400 + if (month : Int) ≤ 2 then 1 else 0) month := by
    omega
  have days : ((epochMs / msPerDay).toNat : Int) =
      era * 146097 + (365 * yoe + yoe / 4 - yoe / 100) + doy - 719468 := by
    obtain ⟨hz, hera, hdoe, hyoe, hdoy, hmp⟩ := march
    simp only [msPerDay]
    omega
  have date := Date.eq_afterEpoch ⟨inYear, inMonth⟩ (counted.trans days.symm)
  rw [civil_eq march past, dateOf, ← date, hmonth, hday]
  rfl

theorem dateOf_spec {epochMs : Int} (past : 0 ≤ epochMs) :
    (dateOf epochMs).Valid ∧ (dateOf epochMs).number = epochMs / msPerDay ∧
      1970 ≤ (dateOf epochMs).year := by
  obtain ⟨valid, number⟩ := Date.afterEpoch_spec (epochMs / msPerDay).toNat
  have days := Int.toNat_of_nonneg (show 0 ≤ epochMs / msPerDay from Int.ediv_nonneg past (by decide))
  refine ⟨valid, number.trans days, ?_⟩
  by_contra early
  have before : (dateOf epochMs).Before Date.epoch := .inl (Int.not_le.mp early)
  have less := Date.number_lt_of_before valid Date.valid_epoch before
  rw [Date.number_epoch] at less
  exact absurd (number ▸ less : ((epochMs / msPerDay).toNat : Int) < 0) (by omega)

/-! ## The text -/

def padded (width number : Nat) : List Char :=
  (fixedDigits width number).map Json.numerals.symbol

/-- Numbers of fixed width, each with the mark behind it. -/
def fieldsText : List (Nat × Char) → List Nat → List Char
  | (width, mark) :: layout, value :: values =>
      padded width value ++ mark :: fieldsText layout values
  | _, _ => []

/-- `YYYY-MM-DDThh:mm:ss.mmmZ` -/
def rfc3339Layout : List (Nat × Char) :=
  [(4, '-'), (2, '-'), (2, 'T'), (2, ':'), (2, ':'), (2, '.'), (3, 'Z')]

/-- A date and the time of that day. -/
def momentFields (date : Date) (msOfDay : Nat) : List Nat :=
  [date.year.toNat, date.month, date.day, msOfDay / 3600000, msOfDay / 60000 % 60,
    msOfDay / 1000 % 60, msOfDay % 1000]

def Fits (layout : List (Nat × Char)) (values : List Nat) : Prop :=
  List.Forall₂ (fun field value => value < 10 ^ field.1) layout values

theorem length_padded (width number : Nat) : (padded width number).length = width := by
  rw [padded, List.length_map, length_fixedDigits]

theorem padded_lt {width number other : Nat} (less : number < other) (bounded : other < 10 ^ width) :
    padded width number < padded width other := by
  have ordered : ∀ digit < 10, ∀ other < digit,
      Json.numerals.symbol other < Json.numerals.symbol digit := by
    decide
  exact map_digits_lt ordered (fixedDigits_lt less bounded) fixedDigits_below

theorem length_fieldsText {layout : List (Nat × Char)} {values : List Nat} (fits : Fits layout values) :
    (fieldsText layout values).length = (layout.map fun field => field.1 + 1).sum := by
  induction fits with
  | nil => rfl
  | cons here later ih =>
      rw [fieldsText, List.length_append, length_padded, List.length_cons, ih, List.map_cons,
        List.sum_cons, Nat.add_assoc, Nat.add_comm 1]

/-- Texts of one layout are in the order of what they say. -/
theorem fieldsText_lt {layout : List (Nat × Char)} {values others : List Nat}
    (fits : Fits layout values) (otherFits : Fits layout others) (less : values < others) :
    fieldsText layout values < fieldsText layout others := by
  induction otherFits generalizing values with
  | nil =>
      cases fits
      cases less
  | @cons field other layout others bounded later ih =>
      cases fits with
      | @cons _ value _ values _ rest =>
          rw [fieldsText, fieldsText]
          rcases List.cons_lt_cons_iff.mp less with here | ⟨same, beyond⟩
          · apply append_lt_append (padded_lt here bounded)
            rw [length_padded, length_padded]
          · rw [same]
            apply List.append_left_lt
            rw [List.cons_lt_cons_iff]
            exact .inr ⟨rfl, ih rest beyond⟩

theorem chars_appendPadded {width number : Nat} (positive : 0 < width) (fits : width ≤ 20)
    (bounded : number < 10 ^ width) : chars (appendPadded number width) = padded width number := by
  rw [appendPadded_natCast positive fits bounded, chars_symbols fixedDigits_below]
  rfl

/-- With the year it is pinned to. -/
def pinned (date : Date) : Date := { date with year := min date.year 9999 }

theorem momentFields_fit {date : Date} {msOfDay : Nat} (valid : date.Valid)
    (within : msOfDay < 86400000) :
    Fits rfc3339Layout (momentFields (pinned date) msOfDay) := by
  have long : monthLength date.year date.month ≤ 31 := by
    simp only [monthLength]
    split <;> split <;> decide
  have month := valid.month
  have day := valid.day
  refine .cons ?_ (.cons ?_ (.cons ?_ (.cons ?_ (.cons ?_ (.cons ?_ (.cons ?_ .nil))))))
  all_goals
    simp only [pinned]
    omega

theorem formatRfc3339Utc_text {epochMs : Int} (past : 0 ≤ epochMs) :
    formatRfc3339Utc epochMs =
      fieldsText rfc3339Layout (momentFields (pinned (dateOf epochMs)) (epochMs % msPerDay).toNat) := by
  obtain ⟨valid, -, late⟩ := dateOf_spec past
  obtain ⟨ms, hms⟩ := Int.eq_ofNat_of_zero_le (Int.emod_nonneg epochMs (show msPerDay ≠ 0 by decide))
  have within : ms < 86400000 := by
    have bound := Int.emod_lt_of_pos epochMs (show 0 < msPerDay by decide)
    simp only [msPerDay] at bound hms
    omega
  have fits := momentFields_fit valid within
  obtain ⟨year, hyear⟩ := Int.eq_ofNat_of_zero_le (show 0 ≤ min (dateOf epochMs).year 9999 by omega)
  have hour : (ms : Int) / 3600000 = (ms / 3600000 : Nat) := rfl
  have minute : (ms : Int) / 60000 % 60 = (ms / 60000 % 60 : Nat) := rfl
  have second : (ms : Int) / 1000 % 60 = (ms / 1000 % 60 : Nat) := rfl
  have milli : (ms : Int) % 1000 = (ms % 1000 : Nat) := rfl
  simp only [Fits, rfc3339Layout, momentFields, pinned, hyear, Int.toNat_natCast,
    List.forall₂_cons] at fits
  obtain ⟨yearFits, monthFits, dayFits, hourFits, minuteFits, secondFits, milliFits, -⟩ := fits
  simp only [formatRfc3339Utc, civil_date past, hms, hyear, hour, minute, second, milli,
    chars_appendPadded (by decide) (by decide) yearFits,
    chars_appendPadded (by decide) (by decide) monthFits,
    chars_appendPadded (by decide) (by decide) dayFits,
    chars_appendPadded (by decide) (by decide) hourFits,
    chars_appendPadded (by decide) (by decide) minuteFits,
    chars_appendPadded (by decide) (by decide) secondFits,
    chars_appendPadded (by decide) (by decide) milliFits, rfc3339Layout, momentFields, pinned,
    fieldsText, Int.toNat_natCast, List.append_assoc, List.cons_append]

theorem length_formatRfc3339Utc {epochMs : Int} (past : 0 ≤ epochMs) :
    (formatRfc3339Utc epochMs).length = 24 := by
  have within : (epochMs % msPerDay).toNat < 86400000 := by
    simp only [msPerDay]
    omega
  rw [formatRfc3339Utc_text past, length_fieldsText (momentFields_fit (dateOf_spec past).1 within)]
  rfl

/-! ## Up to the year 9999 -/

theorem year10000Ms_eq : year10000Ms = (Date.mk 10000 1 1).number * msPerDay := by decide

theorem pinned_dateOf {epochMs : Int} (past : 0 ≤ epochMs) (bounded : epochMs < year10000Ms) :
    pinned (dateOf epochMs) = dateOf epochMs := by
  obtain ⟨valid, number, -⟩ := dateOf_spec past
  have early : (dateOf epochMs).year ≤ 9999 := by
    by_contra late
    have start : yearStart 10000 ≤ yearStart (dateOf epochMs).year := yearStart_mono (by omega)
    have first : yearStart 10000 = 2932897 := by decide
    have inYear := (Date.number_bounds valid).1
    simp only [year10000Ms, msPerDay] at bounded number
    omega
  rw [pinned, min_eq_left early]

theorem clock_lt {ms later : Nat} (less : ms < later) :
    ms / 3600000 < later / 3600000 ∨ ms / 3600000 = later / 3600000 ∧
      (ms / 60000 % 60 < later / 60000 % 60 ∨ ms / 60000 % 60 = later / 60000 % 60 ∧
        (ms / 1000 % 60 < later / 1000 % 60 ∨ ms / 1000 % 60 = later / 1000 % 60 ∧
          ms % 1000 < later % 1000)) := by
  by_cases hour : ms / 3600000 = later / 3600000
  · refine .inr ⟨hour, ?_⟩
    by_cases minute : ms / 60000 = later / 60000
    · refine .inr ⟨by rw [minute], ?_⟩
      by_cases second : ms / 1000 = later / 1000
      · exact .inr ⟨by rw [second], by omega⟩
      · exact .inl (by omega)
    · exact .inl (by omega)
  · exact .inl (by omega)

/-- Later instants have greater fields, the date before the time. -/
theorem momentFields_lt {epochMs later : Int} (past : 0 ≤ epochMs) (less : epochMs < later) :
    momentFields (dateOf epochMs) (epochMs % msPerDay).toNat <
      momentFields (dateOf later) (later % msPerDay).toNat := by
  obtain ⟨valid, number, early⟩ := dateOf_spec past
  obtain ⟨laterValid, laterNumber, late⟩ := dateOf_spec (past.trans less.le)
  simp only [momentFields, List.cons_lt_cons_iff, List.lt_irrefl, and_false, or_false]
  rcases (Int.ediv_le_ediv (show 0 < msPerDay by decide) less.le).lt_or_eq with days | same
  · rw [← number, ← laterNumber] at days
    rcases Date.before_of_number_lt valid laterValid days with year | ⟨year, month | ⟨month, day⟩⟩
    · exact .inl (by omega)
    · exact .inr ⟨by rw [year], .inl month⟩
    · exact .inr ⟨by rw [year], .inr ⟨month, .inl day⟩⟩
  · have sameDate : dateOf epochMs = dateOf later := by rw [dateOf, same, dateOf]
    rw [sameDate]
    refine .inr ⟨rfl, .inr ⟨rfl, .inr ⟨rfl, clock_lt ?_⟩⟩⟩
    simp only [msPerDay] at same ⊢
    omega

theorem formatRfc3339Utc_lt {epochMs later : Int} (past : 0 ≤ epochMs) (less : epochMs < later)
    (bounded : later < year10000Ms) : formatRfc3339Utc epochMs < formatRfc3339Utc later := by
  have fits (instant : Int) (past : 0 ≤ instant) :
      Fits rfc3339Layout (momentFields (pinned (dateOf instant)) (instant % msPerDay).toNat) := by
    apply momentFields_fit (dateOf_spec past).1
    simp only [msPerDay]
    omega
  have laterPast := past.trans less.le
  rw [formatRfc3339Utc_text past, formatRfc3339Utc_text laterPast]
  apply fieldsText_lt (fits epochMs past) (fits later laterPast)
  rw [pinned_dateOf past (less.trans bounded), pinned_dateOf laterPast bounded]
  exact momentFields_lt past less

/-- The text of an instant is its date and time in the Gregorian calendar; it reads back,
and texts are in the order of their instants. -/
theorem formatRfc3339Utc_calendar {epochMs : Int} (past : 0 ≤ epochMs)
    (bounded : epochMs < (Date.mk 10000 1 1).number * msPerDay) :
    (dateOf epochMs).Valid ∧
      formatRfc3339Utc epochMs =
        fieldsText rfc3339Layout (momentFields (dateOf epochMs) (epochMs % msPerDay).toNat) ∧
      (formatRfc3339Utc epochMs).length = 24 ∧
      parseRfc3339 (formatRfc3339Utc epochMs) = some ⟨epochMs * millisecond, 0⟩ ∧
      ∀ other, 0 ≤ other → other < (Date.mk 10000 1 1).number * msPerDay →
        (formatRfc3339Utc epochMs = formatRfc3339Utc other → epochMs = other) ∧
        (formatRfc3339Utc epochMs < formatRfc3339Utc other ↔ epochMs < other) := by
  rw [← year10000Ms_eq] at bounded ⊢
  have read := parseRfc3339_format past bounded
  refine ⟨(dateOf_spec past).1, ?_, length_formatRfc3339Utc past, read, ?_⟩
  · rw [formatRfc3339Utc_text past, pinned_dateOf past bounded]
  · intro other otherPast otherBounded
    have injective (same : formatRfc3339Utc epochMs = formatRfc3339Utc other) : epochMs = other := by
      have otherRead := parseRfc3339_format otherPast otherBounded
      rw [← same, read] at otherRead
      have instants := congrArg Time.instant (Option.some.inj otherRead)
      simp only [millisecond] at instants
      omega
    refine ⟨injective, ?_, fun less => formatRfc3339Utc_lt past less otherBounded⟩
    intro less
    rcases lt_trichotomy epochMs other with before | same | after
    · exact before
    · rw [same] at less
      exact absurd less (List.lt_irrefl _)
    · exact absurd (formatRfc3339Utc_lt otherPast after bounded) (List.lt_asymm less)

theorem formatRfc3339Utc_calendar_leapDay :
    formatRfc3339Utc 1709210096789 = "2024-02-29T12:34:56.789Z".toList ∧
      (dateOf 1709210096789).Valid ∧ (formatRfc3339Utc 1709210096789).length = 24 := by
  have calendar := @formatRfc3339Utc_calendar 1709210096789 (by decide) (by decide)
  exact ⟨by decide +kernel, calendar.1, calendar.2.2.1⟩

end Presence.Firmware
