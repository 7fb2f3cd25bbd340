import Presence.Attendance.WallClock

namespace Presence.Attendance

open Presence.Go

/-! # Arriving late

A business day runs past midnight, but lateness is read off the time of day of the
first arrival.  So an arrival after midnight counts as one in the early morning of the
same business day.
-/

/-- An orphan departure is none. -/
def Span.isArrival (span : Span) : Bool := !(span.inEventId.isNone && span.outEventId.isSome)

def firstArrival (spans : List Span) : Option Int :=
  ((spans.filter Span.isArrival).map Span.startedAt).min?

/-- The time of day from which an arrival is late. -/
def Schedule.limit (schedule : Schedule) : Int :=
  wrap64 (schedule.expectedIn + wrap64 (schedule.graceMinutes * minute))

def OfDate (date : Time) (rules : Rules) (spans : List Span) : Prop :=
  ∀ span ∈ spans, businessDate span.startedAt rules = date

variable {rules : Rules} {schedule : Schedule} {date : Time} {offset first later : Int}

/-! ## What `Rollup` decides -/

theorem foldl_earliest (known : Int) (instants : List Int) :
    instants.foldl earliest (some known) = some (instants.foldl min known) := by
  induction instants generalizing known with
  | nil => rfl
  | cons instant rest ih =>
      have least : earliest (some known) instant = some (min known instant) := by
        rw [earliest, ← apply_ite some, min_def]
        congr 1
        split <;> split <;> omega
      rw [List.foldl_cons, List.foldl_cons, least]
      exact ih (min known instant)

theorem foldl_addSpan_firstInAt (day : Day) (spans : List Span) :
    (spans.foldl Day.addSpan day).firstInAt =
      ((spans.filter Span.isArrival).map Span.startedAt).foldl earliest day.firstInAt := by
  induction spans generalizing day with
  | nil => rfl
  | cons span rest ih =>
      rw [List.foldl_cons, ih]
      by_cases orphan : (span.inEventId.isNone && span.outEventId.isSome) = true
      · simp [Day.addSpan, Span.isArrival, orphan]
      · simp [Day.addSpan, Span.isArrival, orphan]

theorem foldl_addSpan_firstArrival (spans : List Span) {day : Day} (unset : day.firstInAt = none) :
    (spans.foldl Day.addSpan day).firstInAt = firstArrival spans := by
  rw [foldl_addSpan_firstInAt, firstArrival, unset]
  cases (spans.filter Span.isArrival).map Span.startedAt with
  | nil => rfl
  | cons instant rest => exact foldl_earliest instant rest

theorem foldl_addSpan_isLate (spans : List Span) (day : Day) :
    (spans.foldl Day.addSpan day).isLate = day.isLate := by
  induction spans generalizing day with
  | nil => rfl
  | cons span rest ih => exact ih (day.addSpan span)

theorem rollup_isLate {spans : List Span} (date : Time) (schedule : Option Schedule)
    (rules : Rules) (arrived : firstArrival spans = some first) :
    (rollup date spans schedule rules).isLate = true ↔
      ∃ known ∈ schedule, known.appliesOn date = true ∧ known.limit < sinceMidnight first rules := by
  have firstInAt := @foldl_addSpan_firstArrival spans
    ⟨date, none, none, 0, spans.length, false, false, false⟩ rfl
  rw [arrived] at firstInAt
  cases schedule with
  | none => simp [rollup, foldl_addSpan_isLate]
  | some known =>
      by_cases applies : known.appliesOn date = true
      · simp only [rollup, firstInAt]
        simp [applies, Schedule.limit]
      · simp only [rollup, firstInAt]
        simp [applies, foldl_addSpan_isLate]

/-! ## Within a business day -/

/-- The time of day of an instant in a zone of one offset. -/
theorem sinceMidnight_fixed (zone : rules.location = .fixed offset) (instant : Int) :
    sinceMidnight instant rules =
      (instant + offset) % day - (instant + offset) % day % second := by
  rw [sinceMidnight, zone]
  rfl

theorem businessDate_fixed (zone : rules.location = .fixed offset) {instant number : Int} :
    businessDate instant rules = rules.location.midnight number ↔
      number * day ≤ instant - rules.dayBoundary + offset ∧
        instant - rules.dayBoundary + offset < (number + 1) * day := by
  rw [businessDate_eq_midnight, zone, Location.midnight_inj (Location.hasMidnight_fixed _ _)
    (Location.hasMidnight_fixed _ _), Rules.reached, zone, Time.date, Int.ediv_eq_iff_of_pos (by decide)]
  dsimp only [Location.timeIn, Location.fixed]
  rw [Int.add_mul, Int.one_mul]

/-- Without a midnight in between the later of two arrivals has the later time of day. -/
theorem sinceMidnight_mono (zone : rules.location = .fixed offset) (after : first < later)
    (sameDay : (first + offset) / day = (later + offset) / day) :
    sinceMidnight first rules ≤ sinceMidnight later rules := by
  rw [sinceMidnight_fixed zone, sinceMidnight_fixed zone]
  simp only [day, hour, minute, second, millisecond] at *
  omega

/-- The first arrival is late before midnight, the later one in time after it. -/
structure Schedule.PassedOver (schedule : Schedule) (rules : Rules) (date : Time)
    (first later : Int) : Prop where
  applies : schedule.appliesOn date = true
  midnight : (rules.location.timeIn first).date < (rules.location.timeIn later).date
  late : schedule.limit < sinceMidnight first rules
  inTime : sinceMidnight later rules ≤ schedule.limit

theorem isLate_of_isLate_iff {spans others : List Span} (known : Option Schedule) (date : Time)
    (zone : rules.location = .fixed offset) (firstArrived : firstArrival spans = some first)
    (laterArrived : firstArrival others = some later) (after : first < later) :
    ((rollup date spans known rules).isLate = true →
        (rollup date others known rules).isLate = true) ↔
      ∀ schedule ∈ known, ¬ schedule.PassedOver rules date first later := by
  rw [rollup_isLate date known rules firstArrived, rollup_isLate date known rules laterArrived]
  constructor
  · rintro monotone schedule held passed
    obtain ⟨same, heldToo, -, late⟩ := monotone ⟨schedule, held, passed.applies, passed.late⟩
    rw [Option.mem_def.mp held] at heldToo
    cases heldToo
    exact absurd late (not_lt.mpr passed.inTime)
  · rintro never ⟨schedule, held, applies, late⟩
    refine ⟨schedule, held, applies, ?_⟩
    by_contra inTime
    have ordered : (first + offset) / day ≤ (later + offset) / day :=
      Int.ediv_le_ediv (by decide) (by omega)
    rcases Int.le_iff_lt_or_eq.mp ordered with midnight | sameDay
    · refine never schedule held ⟨applies, ?_, late, not_lt.mp inTime⟩
      rw [zone]
      exact midnight
    · have mono := sinceMidnight_mono zone after sameDay
      omega

theorem firstArrival_businessDate {spans : List Span} (ofDate : OfDate date rules spans)
    (arrived : firstArrival spans = some first) : businessDate first rules = date := by
  obtain ⟨span, listed, rfl⟩ := List.mem_map.mp (List.min?_mem arrived)
  exact ofDate span (List.mem_of_mem_filter listed)

/-! ## The whole business day -/

/-- No arrival of the business day can be passed over: the schedule does not apply, the day
starts at midnight, or all times of day are late, or none is. -/
def Schedule.Fair (schedule : Schedule) (rules : Rules) (date : Time) : Prop :=
  schedule.appliesOn date = true →
    rules.dayBoundary = 0 ∨ schedule.limit < 0 ∨ day - second ≤ schedule.limit

theorem Schedule.Fair.not_passedOver {number : Int} (zone : rules.location = .fixed offset)
    (fair : schedule.Fair rules (rules.location.midnight number))
    (firstDate : businessDate first rules = rules.location.midnight number)
    (laterDate : businessDate later rules = rules.location.midnight number) :
    ¬ schedule.PassedOver rules (rules.location.midnight number) first later := by
  rintro ⟨applies, midnight, late, inTime⟩
  have bounds := fair applies
  rw [businessDate_fixed zone] at firstDate laterDate
  rw [zone] at midnight
  rw [sinceMidnight_fixed zone] at late inTime
  simp only [Time.date, Location.timeIn, Location.fixed] at midnight
  simp only [day, hour, minute, second, millisecond] at *
  rcases bounds with boundary | always | never <;> omega

/-- A lone arrival. -/
def arrivalAt (instant : Int) : Span := Pairing.arrival ⟨1, instant, .in, .high⟩

theorem firstArrival_arrivalAt (instant : Int) : firstArrival [arrivalAt instant] = some instant := by
  simp [firstArrival, arrivalAt, Pairing.arrival, Span.isArrival]

/-- The last moment before midnight and midnight itself: the first is late whenever a time
of day can be, the second in time whenever one can be. -/
theorem Schedule.passedOver_of_unfair {number : Int} (zone : rules.location = .fixed offset)
    (lower : 0 ≤ rules.dayBoundary) (upper : rules.dayBoundary < day)
    (unfair : ¬ schedule.Fair rules (rules.location.midnight number)) :
    ∃ first later, first < later ∧ businessDate first rules = rules.location.midnight number ∧
      businessDate later rules = rules.location.midnight number ∧
      schedule.PassedOver rules (rules.location.midnight number) first later := by
  rw [Schedule.Fair, Classical.not_imp] at unfair
  obtain ⟨applies, bounds⟩ := unfair
  refine ⟨(number + 1) * day - offset - 1, (number + 1) * day - offset, by omega, ?_, ?_,
    applies, ?_, ?_, ?_⟩
  · rw [businessDate_fixed zone]
    simp only [day, hour, minute, second, millisecond] at *
    omega
  · rw [businessDate_fixed zone]
    simp only [day, hour, minute, second, millisecond] at *
    omega
  · rw [zone]
    simp only [Time.date, Location.timeIn, Location.fixed]
    simp only [day, hour, minute, second, millisecond] at *
    omega
  · rw [sinceMidnight_fixed zone]
    simp only [day, hour, minute, second, millisecond] at *
    omega
  · rw [sinceMidnight_fixed zone]
    simp only [day, hour, minute, second, millisecond] at *
    omega

/-- A later first arrival stays late unless it is in time by the clock of the next date.
That never happens in a business day exactly when the schedule is fair on it. -/
theorem isLate_monotone_iff (rules : Rules) (known : Option Schedule) (number : Int)
    (zone : rules.location = .fixed offset) (lower : 0 ≤ rules.dayBoundary)
    (upper : rules.dayBoundary < day) :
    (∀ spans others first later, OfDate (rules.location.midnight number) rules spans →
      OfDate (rules.location.midnight number) rules others →
      firstArrival spans = some first → firstArrival others = some later → first < later →
      (((rollup (rules.location.midnight number) spans known rules).isLate = true →
          (rollup (rules.location.midnight number) others known rules).isLate = true) ↔
        ∀ schedule ∈ known,
          ¬ schedule.PassedOver rules (rules.location.midnight number) first later)) ∧
    ((∀ spans others first later, OfDate (rules.location.midnight number) rules spans →
      OfDate (rules.location.midnight number) rules others →
      firstArrival spans = some first → firstArrival others = some later → first < later →
      (rollup (rules.location.midnight number) spans known rules).isLate = true →
        (rollup (rules.location.midnight number) others known rules).isLate = true) ↔
      ∀ schedule ∈ known, schedule.Fair rules (rules.location.midnight number)) := by
  constructor
  · intro spans others first later _ _ firstArrived laterArrived after
    exact isLate_of_isLate_iff known _ zone firstArrived laterArrived after
  constructor
  · intro monotone schedule held
    by_contra unfair
    obtain ⟨first, later, after, firstDate, laterDate, passed⟩ :=
      Schedule.passedOver_of_unfair zone lower upper unfair
    have single : ∀ {instant}, businessDate instant rules = rules.location.midnight number →
        OfDate (rules.location.midnight number) rules [arrivalAt instant] := by
      intro instant dated span member
      rw [List.mem_singleton.mp member, arrivalAt, Pairing.arrival, Span.lowConf_startedAt]
      exact dated
    have kept := monotone _ _ first later (single firstDate) (single laterDate)
      (firstArrival_arrivalAt first) (firstArrival_arrivalAt later) after
    rw [isLate_of_isLate_iff known _ zone (firstArrival_arrivalAt first)
      (firstArrival_arrivalAt later) after] at kept
    exact kept schedule held passed
  · intro fair spans others first later firstOf laterOf firstArrived laterArrived after
    rw [isLate_of_isLate_iff known _ zone firstArrived laterArrived after]
    intro schedule held
    exact (fair schedule held).not_passedOver zone (firstArrival_businessDate firstOf firstArrived)
      (firstArrival_businessDate laterOf laterArrived)

/-! A night shift in Nairobi, expected at 22:00 and allowed ten minutes. -/

def nairobi : Rules := defaultRules (.fixed (3 * hour))

def eveningShift : Schedule := ⟨[], 22 * hour, 6 * hour, 10⟩

theorem isLate_monotone_eveningShift :
    (∀ spans others first later, OfDate (nairobi.location.midnight 20666) nairobi spans →
      OfDate (nairobi.location.midnight 20666) nairobi others →
      firstArrival spans = some first → firstArrival others = some later → first < later →
      (rollup (nairobi.location.midnight 20666) spans (some eveningShift) nairobi).isLate = true →
        (rollup (nairobi.location.midnight 20666) others (some eveningShift) nairobi).isLate = true) ↔
      ∀ schedule ∈ some eveningShift, schedule.Fair nairobi (nairobi.location.midnight 20666) :=
  (@isLate_monotone_iff (3 * hour) nairobi (some eveningShift) 20666 rfl (by decide)
    (by decide)).2

/-- Late at half past ten in the evening, in time two hours later. -/
theorem isLate_halfPastMidnight :
    businessDate (20666 * day + 19 * hour + 30 * minute) nairobi = nairobi.location.midnight 20666 ∧
    businessDate (20666 * day + 21 * hour + 30 * minute) nairobi = nairobi.location.midnight 20666 ∧
    (rollup (nairobi.location.midnight 20666) [arrivalAt (20666 * day + 19 * hour + 30 * minute)]
      (some eveningShift) nairobi).isLate = true ∧
    (rollup (nairobi.location.midnight 20666) [arrivalAt (20666 * day + 21 * hour + 30 * minute)]
      (some eveningShift) nairobi).isLate = false := by
  decide

end Presence.Attendance
