import Presence.Attendance.Rerun
import Presence.Attendance.WallClock
import Presence.Gateway.Decode

namespace Presence.Attendance

open Presence.Firmware Presence.Go Presence.Gateway

/-! # The dates given to `cmd/recompute`

The command turns a date into its midday in UTC, and the engine takes the business date
of that instant.  So the offset of the organisation and the day boundary both move the
midday, and together they may move it off its date.
-/

structure Flags where
  fromStr : String
  toStr : String
  days : Int

inductive WindowError where
  | neither
  | badFrom
  | badTo
  | reversed
deriving DecidableEq, Repr

/-- `time.Parse("2006-01-02", text)`. -/
def parseDate : List Char → Option Time
  | [y1, y2, y3, y4, s1, m1, m2, s2, d1, d2] =>
      if s1 = '-' ∧ s2 = '-' then do
        let year ← parseUint 0 9999 [y1, y2, y3, y4]
        let month ← parseUint 1 12 [m1, m2]
        let day ← parseUint 1 (daysIn year month) [d1, d2]
        (Civil.mk year month day 0 0 0 0).instant
      else none
  | _ => none

example : (parseDate "2026-08-01".toList).map Time.date = some 20666 ∧
    parseDate "2026-02-29".toList = none ∧ parseDate "2026-8-1".toList = none := by decide

/-- The date of the machine is the last of the days asked for. -/
def window (flags : Flags) (today : Int) : Except WindowError (Int × Int) :=
  if flags.days > 0 then
    let upper := today * day + 12 * hour
    .ok (upper - (flags.days - 1) * day, upper)
  else if flags.fromStr = "" ∨ flags.toStr = "" then .error .neither
  else
    match parseDate flags.fromStr.toList with
    | none => .error .badFrom
    | some lower =>
        match parseDate flags.toStr.toList with
        | none => .error .badTo
        | some upper =>
            if upper.instant < lower.instant then .error .reversed
            else .ok (lower.instant + 12 * hour, upper.instant + 12 * hour)

/-- Twelve o'clock in UTC. -/
def midday (date : Int) : Int := date * day + 12 * hour

theorem civil_midnight {year month dayOfMonth : Int} {time : Time}
    (found : (Civil.mk year month dayOfMonth 0 0 0 0).instant = some time) :
    time.instant = time.date * day := by
  unfold Civil.instant at found
  dsimp only at found
  split at found
  next =>
    rw [← Option.some.inj found]
    simp only [Time.date, day, hour, minute, second, millisecond]
    omega
  next => cases found

theorem parseDate_midnight {text : List Char} {time : Time} (parsed : parseDate text = some time) :
    time.instant = time.date * day := by
  simp only [parseDate] at parsed
  split at parsed
  next =>
    split at parsed
    next =>
      simp only [Option.bind_eq_bind, Option.bind_eq_some_iff] at parsed
      obtain ⟨year, -, month, -, dayOfMonth, -, found⟩ := parsed
      exact civil_midnight found
    next => cases parsed
  next => cases parsed

theorem window_of_dates {flags : Flags} {today : Int} {lower upper : Time}
    (dates : flags.days ≤ 0) (lowerParsed : parseDate flags.fromStr.toList = some lower)
    (upperParsed : parseDate flags.toStr.toList = some upper) (ordered : lower.date ≤ upper.date) :
    window flags today = .ok (midday lower.date, midday upper.date) := by
  have lowerGiven : flags.fromStr ≠ "" := by
    intro empty
    rw [empty] at lowerParsed
    cases lowerParsed
  have upperGiven : flags.toStr ≠ "" := by
    intro empty
    rw [empty] at upperParsed
    cases upperParsed
  have inOrder : ¬ upper.instant < lower.instant := by
    rw [parseDate_midnight lowerParsed, parseDate_midnight upperParsed]
    exact not_lt.mpr (Int.mul_le_mul_of_nonneg_right ordered (by decide))
  rw [window, if_neg (by omega), if_neg (by simp [lowerGiven, upperGiven]), lowerParsed, upperParsed]
  dsimp only
  rw [if_neg inOrder, parseDate_midnight lowerParsed, parseDate_midnight upperParsed, midday, midday]

variable {rules : Rules} {date : Int}

/-- Offset and boundary leave the midday on its date, which has a midnight. -/
structure Rules.Anchored (rules : Rules) (date : Int) : Prop where
  early : rules.dayBoundary ≤ 12 * hour + rules.location.offset (midday date - rules.dayBoundary)
  late : 12 * hour + rules.location.offset (midday date - rules.dayBoundary) < day + rules.dayBoundary
  midnight : rules.location.HasMidnight date

/-- They move it to another date, whose missing midnight moves it back. -/
structure Rules.MovedBack (rules : Rules) (date : Int) : Prop where
  moved : rules.reached (midday date) ≠ date
  back : (rules.location.midnight (rules.reached (midday date))).date = date

theorem reached_midday_iff :
    rules.reached (midday date) = date ↔
      rules.dayBoundary ≤ 12 * hour + rules.location.offset (midday date - rules.dayBoundary) ∧
      12 * hour + rules.location.offset (midday date - rules.dayBoundary) < day + rules.dayBoundary := by
  rw [Rules.reached, Time.date, Location.timeIn]
  dsimp only
  generalize rules.location.offset (midday date - rules.dayBoundary) = offset
  rw [midday, Int.ediv_eq_iff_of_pos (by decide)]
  constructor <;> intro bounds <;> constructor <;> omega

theorem businessDate_midday_iff :
    (businessDate (midday date) rules).date = date ↔
      rules.Anchored date ∨ rules.MovedBack date := by
  rw [businessDate_eq_midnight, Location.midnight_date_iff]
  apply or_congr
  · rw [reached_midday_iff]
    exact ⟨fun ⟨⟨early, late⟩, midnight⟩ => ⟨early, late, midnight⟩,
      fun anchored => ⟨⟨anchored.early, anchored.late⟩, anchored.midnight⟩⟩
  · exact ⟨fun ⟨moved, back⟩ => ⟨moved, back⟩, fun moved => ⟨moved.moved, moved.back⟩⟩

def Rules.KeepsDate (rules : Rules) (date : Int) : Prop :=
  rules.Anchored date ∨ rules.MovedBack date

/-- Two windows that are not empty cover the same dates when they have the same ends. -/
theorem Window.covers_iff_ends {window : Window} {lower upper : Int} (ordered : lower ≤ upper) :
    (∀ date, window.covers date = true ↔ lower ≤ date ∧ date ≤ upper) ↔
      window.first.date = lower ∧ window.last.date = upper := by
  simp only [Window.covers, decide_eq_true_iff]
  constructor
  · intro same
    have first := (same lower).mpr ⟨le_refl lower, ordered⟩
    have last := (same upper).mpr ⟨ordered, le_refl upper⟩
    have lowest := (same window.first.date).mp ⟨le_refl _, by omega⟩
    have highest := (same window.last.date).mp ⟨by omega, le_refl _⟩
    omega
  · rintro ⟨rfl, rfl⟩ date
    exact Iff.rfl

/-- Where midnights follow one another, the days rewritten are the days deleted. -/
theorem Steady.requested_businessDate (steady : Steady rules.location) {lower upper instant : Int} :
    (Window.mk (businessDate lower rules) (businessDate upper rules)).requested
        (businessDate instant rules) =
      (Window.mk (businessDate lower rules) (businessDate upper rules)).covers
        (businessDate instant rules).date := by
  rw [Bool.eq_iff_iff]
  refine ⟨steady.covers_of_requested, fun covered => ?_⟩
  rw [Window.covers, decide_eq_true_iff] at covered
  rw [Window.requested, decide_eq_true_iff]
  simp only [businessDate_eq_midnight, steady.prints] at covered ⊢
  exact ⟨steady.midnight_le covered.1, steady.midnight_le covered.2⟩

/-- The command covers the dates it was given exactly when the midday of the first and
of the last keep their dates. -/
theorem window_covers (queried : Queried) (flags : Flags) (today : Int) {lower upper : Time}
    (dates : flags.days ≤ 0) (lowerParsed : parseDate flags.fromStr.toList = some lower)
    (upperParsed : parseDate flags.toStr.toList = some upper) (ordered : lower.date ≤ upper.date) :
    ∃ first last, window flags today = .ok (first, last) ∧
      ((∀ date, (queried.window first last).covers date = true ↔
          lower.date ≤ date ∧ date ≤ upper.date) ↔
        queried.rules.KeepsDate lower.date ∧ queried.rules.KeepsDate upper.date) ∧
      (Steady queried.rules.location → ∀ instant,
        (queried.window first last).requested (businessDate instant queried.rules) =
          (queried.window first last).covers (businessDate instant queried.rules).date) := by
  refine ⟨_, _, window_of_dates dates lowerParsed upperParsed ordered, ?_, ?_⟩
  · rw [Window.covers_iff_ends ordered]
    exact and_congr businessDate_midday_iff businessDate_midday_iff
  · exact fun steady instant => steady.requested_businessDate

theorem window_covers_nairobi :
    ∃ first last, window ⟨"2026-08-01", "2026-08-31", 0⟩ 0 = .ok (first, last) ∧
      ((∀ date, (Queried.window ⟨defaultRules (.fixed (3 * hour)), [], []⟩ first last).covers date =
          true ↔ 20666 ≤ date ∧ date ≤ 20696) ↔
        (defaultRules (.fixed (3 * hour))).KeepsDate 20666 ∧
          (defaultRules (.fixed (3 * hour))).KeepsDate 20696) :=
  have ⟨first, last, given, covered, _⟩ :=
    window_covers ⟨defaultRules (.fixed (3 * hour)), [], []⟩ ⟨"2026-08-01", "2026-08-31", 0⟩ 0
      (by decide) (show _ = some ⟨20666 * day, 0⟩ by decide) (show _ = some ⟨20696 * day, 0⟩ by decide)
      (by decide)
  ⟨first, last, given, covered⟩

/-- Ten hours behind UTC a midday less four hours is still the evening before. -/
theorem window_honolulu :
    window ⟨"2026-08-01", "2026-08-01", 0⟩ 0 = .ok (midday 20666, midday 20666) ∧
    (Queried.window ⟨defaultRules (.fixed (-10 * hour)), [], []⟩ (midday 20666)
      (midday 20666)).covers 20666 = false ∧
    (Queried.window ⟨defaultRules (.fixed (-10 * hour)), [], []⟩ (midday 20666)
      (midday 20666)).covers 20665 = true := by
  decide

end Presence.Attendance
