import Presence.Firmware.Timestamp

namespace Presence.Firmware

open Presence.Data Presence.Gateway Presence.Go

/-! # The timestamp of any clock

An `int64_t` of milliseconds reaches far beyond the year 9999.  `formatRfc3339Utc` pins
the year there, and nothing else of the date.
-/

/-! ## Overflow

`civil` once more, with every sum, difference and product held in an `int64_t`.
-/

/-- The era of a day and the day of the era. -/
def eraInt64 (z : Int) : Option (Int × Int) := do
  let floored ← inInt64 (if z ≥ 0 then z else z - 146096)
  let era := floored.tdiv 146097
  let doe ← inInt64 (z - (← inInt64 (era * 146097)))
  return (era, doe)

/-- The year of a day of the era and the day of the year. -/
def yearInt64 (doe : Int) : Option (Int × Int) := do
  let common ← inInt64 (doe - doe.tdiv 1460)
  let centuries ← inInt64 (common + doe.tdiv 36524)
  let yearDays ← inInt64 (centuries - doe.tdiv 146096)
  let yoe := yearDays.tdiv 365
  let leaps ← inInt64 ((← inInt64 (365 * yoe)) + yoe.tdiv 4)
  let doy ← inInt64 (doe - (← inInt64 (leaps - yoe.tdiv 100)))
  return (yoe, doy)

/-- The month of a day of the year and the day of the month. -/
def monthInt64 (doy : Int) : Option (Int × Int) := do
  let fifths ← inInt64 ((← inInt64 (5 * doy)) + 2)
  let mp := fifths.tdiv 153
  let start ← inInt64 ((← inInt64 (153 * mp)) + 2)
  let day ← inInt64 ((← inInt64 (doy - start.tdiv 5)) + 1)
  let month ← inInt64 (mp + if mp < 10 then 3 else -9)
  return (month, day)

def civilInt64 (epochMs : Int) : Option Civil := do
  let epochMs := if epochMs < 0 then 0 else epochMs
  let days := epochMs.tdiv 86400000
  let msOfDay := epochMs.tmod 86400000
  let (era, doe) ← eraInt64 (← inInt64 (days + 719468))
  let (yoe, doy) ← yearInt64 doe
  let (month, day) ← monthInt64 doy
  let year ← inInt64 ((← inInt64 (yoe + (← inInt64 (era * 400)))) + if month ≤ 2 then 1 else 0)
  return {
    year := if year < 0 then 0 else if year > 9999 then 9999 else year
    month
    day
    hour := msOfDay.tdiv 3600000
    minute := (msOfDay.tdiv 60000).tmod 60
    second := (msOfDay.tdiv 1000).tmod 60
    milli := msOfDay.tmod 1000 }

theorem inInt64_of_range {value : Int} (low : -2 ^ 63 ≤ value) (high : value < 2 ^ 63) :
    inInt64 value = some value :=
  if_pos ⟨low, high⟩

theorem eraInt64_eq {z : Int} (low : 0 ≤ z) (high : z < 2 ^ 62) :
    eraInt64 z = some (z / 146097, z - z / 146097 * 146097) := by
  have floored : (if z ≥ 0 then z else z - 146096) = z := if_pos low
  simp only [eraInt64, floored, Option.bind_eq_bind]
  rw [inInt64_of_range (by omega) (by omega), Option.bind_some, Int.tdiv_eq_ediv_of_nonneg low,
    inInt64_of_range (by omega) (by omega), Option.bind_some,
    inInt64_of_range (by omega) (by omega)]
  rfl

theorem yearInt64_eq {doe yoe : Int} (low : 0 ≤ doe) (high : doe ≤ 146096)
    (hyoe : yoe = (doe - doe / 1460 + doe / 36524 - doe / 146096) / 365) :
    yearInt64 doe = some (yoe, doe - (365 * yoe + yoe / 4 - yoe / 100)) := by
  have range : 0 ≤ yoe ∧ yoe ≤ 399 := by omega
  simp only [yearInt64, Option.bind_eq_bind, Int.tdiv_eq_ediv_of_nonneg low]
  rw [inInt64_of_range (by omega) (by omega), Option.bind_some,
    inInt64_of_range (by omega) (by omega), Option.bind_some,
    inInt64_of_range (by omega) (by omega), Option.bind_some,
    Int.tdiv_eq_ediv_of_nonneg (by omega), ← hyoe, Int.tdiv_eq_ediv_of_nonneg range.1,
    Int.tdiv_eq_ediv_of_nonneg range.1, inInt64_of_range (by omega) (by omega), Option.bind_some,
    inInt64_of_range (by omega) (by omega), Option.bind_some,
    inInt64_of_range (by omega) (by omega), Option.bind_some,
    inInt64_of_range (by omega) (by omega)]
  rfl

theorem monthInt64_eq {doy mp : Int} (low : 0 ≤ doy) (high : doy ≤ 365)
    (hmp : mp = (5 * doy + 2) / 153) :
    monthInt64 doy =
      some (mp + if mp < 10 then 3 else -9, doy - (153 * mp + 2) / 5 + 1) := by
  have range : 0 ≤ mp ∧ mp ≤ 11 := by omega
  simp only [monthInt64, Option.bind_eq_bind]
  rw [inInt64_of_range (by omega) (by omega), Option.bind_some,
    inInt64_of_range (by omega) (by omega), Option.bind_some,
    Int.tdiv_eq_ediv_of_nonneg (by omega), ← hmp, inInt64_of_range (by omega) (by omega),
    Option.bind_some, inInt64_of_range (by omega) (by omega), Option.bind_some,
    Int.tdiv_eq_ediv_of_nonneg (by omega), inInt64_of_range (by omega) (by omega),
    Option.bind_some, inInt64_of_range (by omega) (by omega), Option.bind_some,
    inInt64_of_range (by split <;> omega) (by split <;> omega)]
  rfl

theorem civil_of_neg {epochMs : Int} (negative : epochMs < 0) : civil epochMs = civil 0 := by
  simp only [civil, if_pos negative]
  rfl

theorem civilInt64_of_past {epochMs : Int} (past : 0 ≤ epochMs) (high : epochMs < 2 ^ 63) :
    civilInt64 epochMs = some (civil epochMs) := by
  obtain ⟨z, era, doe, yoe, doy, mp, march⟩ := exists_fromMarch epochMs
  have doeRange := march.doe_range
  have yoeRange := march.yoe_range
  have doyRange := march.doy_range
  rw [civil_eq march past]
  obtain ⟨hz, hera, hdoe, hyoe, hdoy, hmp⟩ := march
  have zRange : 719468 ≤ z ∧ z < 2 ^ 62 := by omega
  have eraRange : 0 ≤ era ∧ era < 2 ^ 46 := by omega
  have sameEra := eraInt64_eq (show 0 ≤ z by omega) zRange.2
  have sameYear := yearInt64_eq doeRange.1 doeRange.2 hyoe
  have sameMonth := monthInt64_eq doyRange.1 (by omega) hmp
  rw [← hera, ← hdoe] at sameEra
  rw [← hdoy] at sameYear
  rw [civilInt64, if_neg (by omega)]
  simp only [Int.tdiv_eq_ediv_of_nonneg past, Int.tmod_eq_emod_of_nonneg past, ← hz,
    Option.bind_eq_bind, inInt64_of_range (show -2 ^ 63 ≤ z by omega) (show z < 2 ^ 63 by omega),
    Option.bind_some, sameEra, sameYear, sameMonth]
  generalize mp + (if mp < 10 then 3 else -9) = month
  obtain ⟨year, hyear⟩ : ∃ year, year = yoe + era * 400 + if month ≤ 2 then 1 else 0 := ⟨_, rfl⟩
  have yearRange : 0 ≤ year ∧ year < 2 ^ 62 := by
    rw [hyear]
    split <;> omega
  have pinned : (if year < 0 then 0 else if year > 9999 then 9999 else year) = min year 9999 := by
    omega
  have ms : 0 ≤ epochMs % 86400000 := Int.emod_nonneg epochMs (by decide)
  rw [inInt64_of_range (show -2 ^ 63 ≤ era * 400 by omega) (by omega), Option.bind_some,
    inInt64_of_range (show -2 ^ 63 ≤ yoe + era * 400 by omega) (by omega), Option.bind_some,
    ← hyear, inInt64_of_range (by omega) (by omega), Option.bind_some, pinned,
    Int.tdiv_eq_ediv_of_nonneg ms, Int.tdiv_eq_ediv_of_nonneg ms, Int.tdiv_eq_ediv_of_nonneg ms,
    Int.tmod_eq_emod_of_nonneg (by omega), Int.tmod_eq_emod_of_nonneg (by omega),
    Int.tmod_eq_emod_of_nonneg ms]
  rfl

/-- No `int64_t` makes it overflow. -/
theorem civilInt64_eq {epochMs : Int} (high : epochMs < 2 ^ 63) :
    civilInt64 epochMs = some (civil epochMs) := by
  by_cases past : 0 ≤ epochMs
  · exact civilInt64_of_past past high
  · have negative : epochMs < 0 := by omega
    have clamped : civilInt64 epochMs = civilInt64 0 := by
      rw [civilInt64, if_pos negative]
      rfl
    rw [clamped, civil_of_neg negative, civilInt64_of_past (le_refl 0) (by decide)]

theorem formatRfc3339Utc_of_neg {epochMs : Int} (negative : epochMs < 0) :
    formatRfc3339Utc epochMs = formatRfc3339Utc 0 := by
  rw [formatRfc3339Utc, civil_of_neg negative, formatRfc3339Utc]

/-! ## Validity -/

/-- The last of February of a leap year the year is pinned away from. -/
def OnLostLeapDay (epochMs : Int) : Prop :=
  ∃ year, 9999 < year ∧ IsLeapYear year ∧ epochMs / msPerDay = (Date.mk year 2 29).number

/-- What the gateway can read: a date of the calendar in a year of four digits, and a
time of day. -/
structure Readable (text : List Char) : Prop where
  length : text.length = 24
  valid : ∃ date : Date, date.Valid ∧ 0 ≤ date.year ∧ date.year ≤ 9999 ∧
    ∃ ms < 86400000, text = fieldsText rfc3339Layout (momentFields date ms)
  decoded : ∃ time, parseRfc3339 text = some time

/-- A date of a year of four digits is that of an instant. -/
theorem dateOf_of_number {date : Date} {ms : Nat} (valid : date.Valid) (early : 1970 ≤ date.year)
    (within : ms < 86400000) :
    dateOf (date.number * msPerDay + ms) = date ∧
      (date.number * msPerDay + ms) % msPerDay = ms ∧ 0 ≤ date.number * msPerDay + ms := by
  have start : yearStart 1970 ≤ yearStart date.year := yearStart_mono early
  have first : yearStart 1970 = 0 := by decide
  have bounds := Date.number_bounds valid
  have past : 0 ≤ date.number * msPerDay + ms := by
    simp only [msPerDay]
    omega
  refine ⟨?_, by simp only [msPerDay]; omega, past⟩
  obtain ⟨sameValid, number, -⟩ := dateOf_spec past
  apply Date.eq_of_number_eq sameValid valid
  rw [number]
  simp only [msPerDay]
  omega

/-- Such a date reads back. -/
theorem readable_of_valid {date : Date} {ms : Nat} (valid : date.Valid) (early : 1970 ≤ date.year)
    (late : date.year ≤ 9999) (within : ms < 86400000) :
    Readable (fieldsText rfc3339Layout (momentFields date ms)) := by
  obtain ⟨same, clock, past⟩ := dateOf_of_number valid early within
  have bounded : date.number * msPerDay + ms < year10000Ms := by
    have finish : yearStart (date.year + 1) ≤ yearStart 10000 := yearStart_mono (by omega)
    have last : yearStart 10000 = 2932897 := by decide
    have bounds := Date.number_bounds valid
    simp only [year10000Ms, msPerDay]
    omega
  have text := formatRfc3339Utc_text past
  rw [pinned_dateOf past bounded, same, clock, Int.toNat_natCast] at text
  rw [← text]
  exact ⟨length_formatRfc3339Utc past,
    ⟨date, valid, by omega, late, ms, within, text⟩, _, parseRfc3339_format past bounded⟩

/-- Nothing but the year is pinned, so a leap day is all that can go wrong. -/
theorem pinned_valid_iff {date : Date} (valid : date.Valid) :
    (pinned date).Valid ↔ ¬ (9999 < date.year ∧ IsLeapYear date.year ∧ date.month = 2 ∧ date.day = 29) := by
  obtain ⟨month, low, high⟩ := valid
  have common : ¬ IsLeapYear 9999 := by decide
  by_cases late : 9999 < date.year
  · have year : (pinned date).year = 9999 := min_eq_right late.le
    have length : monthLength 9999 date.month =
        if date.month = 2 then 28 else monthLength date.year date.month := by
      simp only [monthLength, if_neg common]
      split <;> rfl
    constructor
    · rintro pinnedValid ⟨-, -, february, leapDay⟩
      have short := pinnedValid.day.2
      rw [year, show (pinned date).month = date.month from rfl, length, if_pos february] at short
      exact absurd (leapDay ▸ short : 29 ≤ 28) (by decide)
    · intro other
      refine ⟨month, low, ?_⟩
      rw [year, show (pinned date).month = date.month from rfl, length]
      split
      next february =>
        rw [february] at high
        by_cases leap : IsLeapYear date.year
        · have notLast : date.day ≠ 29 := fun last => other ⟨late, leap, february, last⟩
          rw [monthLength, if_pos rfl, if_pos leap] at high
          exact Nat.le_of_lt_succ (lt_of_le_of_ne high notLast)
        · rwa [monthLength, if_pos rfl, if_neg leap] at high
      next => exact high
  · have same : pinned date = date := by rw [pinned, min_eq_left (by omega)]
    rw [same]
    exact ⟨fun _ lost => late lost.1, fun _ => ⟨month, low, high⟩⟩

theorem onLostLeapDay_iff {epochMs : Int} (past : 0 ≤ epochMs) :
    OnLostLeapDay epochMs ↔ 9999 < (dateOf epochMs).year ∧ IsLeapYear (dateOf epochMs).year ∧
      (dateOf epochMs).month = 2 ∧ (dateOf epochMs).day = 29 := by
  obtain ⟨valid, number, -⟩ := dateOf_spec past
  constructor
  · rintro ⟨year, late, leap, days⟩
    have leapDay : (Date.mk year 2 29).Valid := by
      refine ⟨⟨by simp, by simp⟩, by simp, ?_⟩
      simp [monthLength, leap]
    have same := Date.eq_of_number_eq valid leapDay (number.trans days)
    rw [same]
    exact ⟨late, leap, rfl, rfl⟩
  · rintro ⟨late, leap, month, day⟩
    refine ⟨(dateOf epochMs).year, late, leap, ?_⟩
    rw [← number, ← month, ← day]

theorem not_onLostLeapDay_of_neg {epochMs : Int} (negative : epochMs < 0) :
    ¬ OnLostLeapDay epochMs := by
  rintro ⟨year, late, -, days⟩
  have start : yearStart 10000 ≤ yearStart year := yearStart_mono (by omega)
  have first : yearStart 10000 = 2932897 := by decide
  have before : (Date.mk year 2 29).number = yearStart year + 31 + 29 - 1 := rfl
  simp only [msPerDay] at days
  omega

theorem fieldsText_injective {layout : List (Nat × Char)} {values others : List Nat}
    (fits : Fits layout values) (otherFits : Fits layout others)
    (same : fieldsText layout values = fieldsText layout others) : values = others := by
  rcases lt_trichotomy values others with before | equal | after
  · exact absurd (same ▸ fieldsText_lt fits otherFits before) (List.lt_irrefl _)
  · exact equal
  · exact absurd (same ▸ fieldsText_lt otherFits fits after) (List.lt_irrefl _)

theorem readable_iff_of_past {epochMs : Int} (past : 0 ≤ epochMs) :
    Readable (formatRfc3339Utc epochMs) ↔ ¬ OnLostLeapDay epochMs := by
  obtain ⟨valid, -, early⟩ := dateOf_spec past
  have within : (epochMs % msPerDay).toNat < 86400000 := by
    simp only [msPerDay]
    omega
  rw [formatRfc3339Utc_text past, onLostLeapDay_iff past, ← pinned_valid_iff valid]
  constructor
  · rintro ⟨-, ⟨date, dateValid, nonneg, late, ms, msWithin, same⟩, -⟩
    have datePinned : pinned date = date := by rw [pinned, min_eq_left late]
    have fits := momentFields_fit dateValid msWithin
    rw [datePinned] at fits
    have values := fieldsText_injective (momentFields_fit valid within) fits same
    simp only [momentFields, List.cons.injEq] at values
    have year : (pinned (dateOf epochMs)).year = date.year := by
      have pinnedEarly : 0 ≤ (pinned (dateOf epochMs)).year := by
        simp only [pinned]
        omega
      omega
    rw [Date.ext year values.2.1 values.2.2.1]
    exact dateValid
  · intro pinnedValid
    apply readable_of_valid pinnedValid _ _ within
    · simp only [pinned]
      omega
    · exact min_le_right _ _

/-- The calendar the gateway reads a date in is the same. -/
theorem instant_isSome_iff {epochMs : Int} (past : 0 ≤ epochMs) :
    (civil epochMs).instant.isSome = true ↔ (pinned (dateOf epochMs)).Valid := by
  have same : (1 ≤ ((dateOf epochMs).month : Int) ∧ ((dateOf epochMs).month : Int) ≤ 12 ∧
      1 ≤ ((dateOf epochMs).day : Int) ∧
      ((dateOf epochMs).day : Int) ≤ daysIn (min (dateOf epochMs).year 9999) (dateOf epochMs).month) ↔
        (pinned (dateOf epochMs)).Valid := by
    rw [daysIn_eq]
    norm_cast
    exact ⟨fun inside => ⟨⟨inside.1, inside.2.1⟩, inside.2.2.1, inside.2.2.2⟩,
      fun valid => ⟨valid.month.1, valid.month.2, valid.day.1, valid.day.2⟩⟩
  rw [civil_date past, Civil.instant, ← same]
  split
  next inside => exact iff_of_true rfl inside
  next outside => exact iff_of_false (by simp) outside

theorem instant_eq_none_iff (epochMs : Int) :
    (civil epochMs).instant = none ↔ OnLostLeapDay epochMs := by
  by_cases past : 0 ≤ epochMs
  · rw [← Option.not_isSome_iff_eq_none, instant_isSome_iff past,
      pinned_valid_iff (dateOf_spec past).1, onLostLeapDay_iff past, not_not]
  · have negative : epochMs < 0 := by omega
    rw [civil_of_neg negative]
    exact iff_of_false (by decide) (not_onLostLeapDay_of_neg negative)

/-- One record with such a clock and the gateway refuses the batch; nothing else in a
batch makes it do so. -/
theorem wireRequest_eq_none_iff (batch : List PunchRecord) (envelope : BatchMeta) :
    wireRequest batch envelope = none ↔ ∃ record ∈ batch,
      0 < record.capturedEpochMs ∧ OnLostLeapDay (toInt64 record.capturedEpochMs) := by
  have event (record : PunchRecord) : wireEvent record = none ↔
      0 < record.capturedEpochMs ∧ OnLostLeapDay (toInt64 record.capturedEpochMs) := by
    simp only [wireEvent, wireCapturedAt, Option.bind_eq_bind]
    split
    next captured =>
      rw [← instant_eq_none_iff]
      cases (civil (toInt64 record.capturedEpochMs)).instant <;> simp [captured]
    next missing => simp [missing]
  have mapped (batch : List PunchRecord) :
      batch.mapM wireEvent = none ↔ ∃ record ∈ batch, wireEvent record = none := by
    induction batch with
    | nil => simp
    | cons record batch ih =>
        rw [List.mapM_cons]
        cases decoded : wireEvent record with
        | none => simp [decoded]
        | some first =>
            rw [List.exists_mem_cons_iff, decoded, ← ih]
            cases batch.mapM wireEvent <;> simp
  have decoded : wireRequest batch envelope = none ↔ batch.mapM wireEvent = none := by
    simp only [wireRequest, Option.bind_eq_bind]
    cases batch.mapM wireEvent <;> simp
  rw [decoded, mapped]
  simp only [event]

/-- Every `int64_t` is formatted without overflow, in 24 characters that the gateway can
read, but for the leap days of the years after 9999. -/
theorem formatRfc3339Utc_readable_iff {epochMs : Int} (high : epochMs < 2 ^ 63) :
    (civilInt64 epochMs = some (civil epochMs) ∧ Readable (formatRfc3339Utc epochMs)) ↔
      ¬ OnLostLeapDay epochMs := by
  rw [civilInt64_eq high, eq_self, true_and]
  by_cases past : 0 ≤ epochMs
  · exact readable_iff_of_past past
  · have negative : epochMs < 0 := by omega
    rw [formatRfc3339Utc_of_neg negative, readable_iff_of_past (le_refl 0)]
    have first : ¬ OnLostLeapDay 0 := by
      rw [onLostLeapDay_iff (le_refl 0)]
      decide
    exact iff_of_true first (not_onLostLeapDay_of_neg negative)

/-- The first day of the year 10000. -/
theorem formatRfc3339Utc_readable_iff_year10000 :
    ¬ OnLostLeapDay year10000Ms ∧ Readable (formatRfc3339Utc year10000Ms) := by
  have other : ¬ OnLostLeapDay year10000Ms := by
    rintro ⟨year, late, -, days⟩
    have start : yearStart 10000 ≤ yearStart year := yearStart_mono (by omega)
    have first : yearStart 10000 = 2932897 := by decide
    have before : (Date.mk year 2 29).number = yearStart year + 31 + 29 - 1 := rfl
    simp only [year10000Ms, msPerDay] at days
    omega
  exact ⟨other, ((formatRfc3339Utc_readable_iff (by decide)).mpr other).2⟩

/-- The last of February of the year 10000 becomes one of 9999, which has none. -/
theorem formatRfc3339Utc_lostLeapDay :
    formatRfc3339Utc 253407398400000 = "9999-02-29T00:00:00.000Z".toList ∧
      ¬ ∀ epochMs : Int, -2 ^ 63 ≤ epochMs → epochMs < 2 ^ 63 →
        civilInt64 epochMs = some (civil epochMs) ∧ Readable (formatRfc3339Utc epochMs) := by
  refine ⟨by decide +kernel, fun all => ?_⟩
  obtain ⟨time, decoded⟩ := (all 253407398400000 (by decide) (by decide)).2.decoded
  have refused : parseRfc3339 (formatRfc3339Utc 253407398400000) = none := by decide +kernel
  rw [refused] at decoded
  cases decoded

end Presence.Firmware
