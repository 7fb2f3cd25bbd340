import Presence.Attendance.Records
import Presence.Data.Except

namespace Presence.Attendance

open Presence.Data Presence.Go Presence.Gateway Presence.Postgres

/-! # The schedule of a business date

Assignments are dated in the calendar and read as midnights in UTC, a business date is a
midnight in the zone of the organisation, and `forPerson` compares the two as instants.
-/

/-- In force at an instant, when both its dates are taken as midnights in UTC. -/
def DatedSchedule.inForce (instant : Int) (dated : DatedSchedule) : Bool :=
  decide (dated.effectiveFrom ≤ instant) && dated.effectiveTo.all (instant ≤ ·)

/-- The assignment that `forPerson` picks. -/
def ScheduleSet.picked (schedules : ScheduleSet) (person : String) (date : Time) :
    Option DatedSchedule :=
  (valuesOf person schedules).find? (·.inForce date.instant)

/-- The newest assignment in force on a date of the calendar, none when there is none. -/
structure IsAssigned (assignments : List DatedSchedule) (date : Int) (pick : Option DatedSchedule) :
    Prop where
  inForce : ∀ dated ∈ pick, dated ∈ assignments ∧ dated.inForce (scanDate date) = true
  newest : ∀ dated ∈ pick, ∀ other ∈ assignments, other.inForce (scanDate date) = true →
    other.effectiveFrom ≤ dated.effectiveFrom
  none : pick = none → ∀ other ∈ assignments, other.inForce (scanDate date) = false

/-- How long before its midnight in UTC the business date begins: the offset of the zone. -/
def ahead (date : Time) : Int := scanDate date.date - date.instant

theorem ahead_midnight_fixed (offset number : Int) :
    ahead ((Location.fixed offset).midnight number) = offset := by
  have shown : ((Location.fixed offset).midnight number).date = number :=
    Location.hasMidnight_fixed offset number
  rw [ahead, shown, Location.midnight_fixed, scanDate]
  dsimp only
  omega

theorem forPerson_eq (schedules : ScheduleSet) (person : String) (date : Time) :
    schedules.forPerson person date = (schedules.picked person date).map DatedSchedule.schedule := rfl

variable {db : Sources} {org : Uuid} {schedules : ScheduleSet} {person : String} {date : Time}
  {assignments : List DatedSchedule} {dated : DatedSchedule}

/-! ## What is loaded -/

theorem loadSchedule_dates {row : PersonScheduleRow}
    (found : loadSchedule db org row = some (.ok (person, dated))) :
    dated.effectiveFrom = scanDate row.effectiveFrom ∧
      dated.effectiveTo = row.effectiveTo.map scanDate := by
  simp only [loadSchedule, Option.bind_eq_bind, Option.bind_eq_some_iff] at found
  obtain ⟨schedule, -, found⟩ := found
  split at found
  next =>
    obtain ⟨-, rfl⟩ := Prod.mk.inj (Except.ok.inj (Option.some.inj found))
    exact ⟨rfl, rfl⟩
  next => cases found

theorem loadSchedules_ok (loaded : loadSchedules db org = .ok schedules) :
    ∃ values, schedules = groupBy Prod.fst Prod.snd values ∧
      (db.personSchedule.insertionSort
        (fun first second => second.effectiveFrom ≤ first.effectiveFrom)).filterMap
          (loadSchedule db org) = values.map .ok := by
  obtain ⟨values, collected, grouped⟩ := except_bind_ok_iff.mp loaded
  cases grouped
  exact ⟨values, rfl, mapM_id_ok collected⟩

/-- The assignments of a person are those of the rows that join a schedule of the organisation. -/
theorem mem_valuesOf_loadSchedules (loaded : loadSchedules db org = .ok schedules) :
    dated ∈ valuesOf person schedules ↔
      ∃ row ∈ db.personSchedule, loadSchedule db org row = some (.ok (person, dated)) := by
  obtain ⟨values, rfl, items⟩ := loadSchedules_ok loaded
  have member : (person, dated) ∈ values ↔
      (.ok (person, dated) : Except RecomputeError _) ∈ values.map .ok := by
    simp
  rw [← items, List.mem_filterMap] at member
  simp only [List.mem_insertionSort] at member
  rw [valuesOf_groupBy, ← member]
  simp

theorem newestFirst_valuesOf (loaded : loadSchedules db org = .ok schedules) (person : String) :
    (valuesOf person schedules).Pairwise
      (fun first second => second.effectiveFrom ≤ first.effectiveFrom) := by
  obtain ⟨values, rfl, items⟩ := loadSchedules_ok loaded
  have rows := List.pairwise_insertionSort
    (fun first second : PersonScheduleRow => second.effectiveFrom ≤ first.effectiveFrom)
    db.personSchedule
  have sorted : (values.map (.ok : _ → Except RecomputeError _)).Pairwise
      (fun first second => ∀ earlier later, first = .ok earlier → second = .ok later →
        later.2.effectiveFrom ≤ earlier.2.effectiveFrom) := by
    rw [← items, List.pairwise_filterMap]
    apply rows.imp
    rintro first second ordered _ firstFound _ secondFound ⟨firstName, firstDated⟩
      ⟨secondName, secondDated⟩ rfl rfl
    rw [(loadSchedule_dates firstFound).1, (loadSchedule_dates secondFound).1]
    exact Int.mul_le_mul_of_nonneg_right ordered (by decide)
  rw [List.pairwise_map] at sorted
  rw [valuesOf_groupBy, List.pairwise_map]
  refine (sorted.imp ?_).filter _
  exact fun ordered => ordered _ _ rfl rfl

/-! ## What is picked -/

/-- The first in force, newest first, is the newest. -/
theorem effectiveFrom_le_of_find {instant : Int} {other : DatedSchedule}
    (sorted : assignments.Pairwise (fun first second => second.effectiveFrom ≤ first.effectiveFrom))
    (found : assignments.find? (·.inForce instant) = some dated) (listed : other ∈ assignments)
    (inForce : other.inForce instant = true) : other.effectiveFrom ≤ dated.effectiveFrom := by
  obtain ⟨-, before, after, rfl, passed⟩ := List.find?_eq_some_iff_append.mp found
  rcases List.mem_append.mp listed with earlier | here
  · simpa [inForce] using passed other earlier
  · rcases List.mem_cons.mp here with rfl | later
    · exact le_refl _
    · exact (List.pairwise_cons.mp (List.pairwise_append.mp sorted).2.1).1 other later

/-- The pick is right exactly when the instant matches no assignment that is not in force
before all others, and for every one in force it matches one as new. -/
theorem isAssigned_find_iff {instant number : Int}
    (sorted : assignments.Pairwise (fun first second => second.effectiveFrom ≤ first.effectiveFrom)) :
    IsAssigned assignments number (assignments.find? (·.inForce instant)) ↔
      (∀ dated ∈ assignments.find? (·.inForce instant), dated.inForce (scanDate number) = true) ∧
      ∀ other ∈ assignments, other.inForce (scanDate number) = true →
        ∃ dated ∈ assignments, dated.inForce instant = true ∧
          other.effectiveFrom ≤ dated.effectiveFrom := by
  constructor
  · intro assigned
    refine ⟨fun dated found => (assigned.inForce dated found).2, fun other listed inForce => ?_⟩
    cases found : assignments.find? (·.inForce instant) with
    | none => simpa [inForce] using assigned.none found other listed
    | some dated =>
        exact ⟨dated, List.mem_of_find?_eq_some found, List.find?_some found,
          assigned.newest dated found other listed inForce⟩
  · rintro ⟨inForce, matched⟩
    constructor
    · exact fun dated found => ⟨List.mem_of_find?_eq_some found, inForce dated found⟩
    · intro dated found other listed otherInForce
      obtain ⟨newer, newerListed, newerMatches, older⟩ := matched other listed otherInForce
      exact older.trans (effectiveFrom_le_of_find sorted found newerListed newerMatches)
    · intro missed other listed
      by_contra otherInForce
      obtain ⟨newer, newerListed, newerMatches, -⟩ :=
        matched other listed (Bool.not_eq_false _ ▸ otherInForce)
      exact List.find?_eq_none.mp missed newer newerListed newerMatches

/-- A business date that begins within a day of its midnight in UTC matches what is in
force on it, but for the first day of an assignment when it begins before that midnight
and for the last day when it begins after it. -/
theorem inForce_instant_iff (loaded : loadSchedules db org = .ok schedules)
    (listed : dated ∈ valuesOf person schedules) (early : ahead date < day) (late : -day < ahead date) :
    dated.inForce date.instant = true ↔
      dated.inForce (scanDate date.date) = true ∧
        (0 < ahead date → dated.effectiveFrom ≠ scanDate date.date) ∧
        (ahead date < 0 → dated.effectiveTo ≠ some (scanDate date.date)) := by
  obtain ⟨row, -, found⟩ := (mem_valuesOf_loadSchedules loaded).mp listed
  obtain ⟨fromDate, toDate⟩ := loadSchedule_dates found
  have length : day = 86400000000000 := rfl
  simp only [DatedSchedule.inForce, fromDate, toDate, Bool.and_eq_true,
    decide_eq_true_iff]
  unfold ahead scanDate at *
  rw [length] at early late ⊢
  cases row.effectiveTo with
  | none => simp; omega
  | some last => simp; omega

/-- `forPerson` returns the schedule of one assignment, and it is the one in force on the
business date under the stated conditions. -/
theorem forPerson_isAssigned_iff (loaded : loadSchedules db org = .ok schedules) (person : String)
    (date : Time) :
    schedules.forPerson person date =
        (schedules.picked person date).map DatedSchedule.schedule ∧
      (IsAssigned (valuesOf person schedules) date.date (schedules.picked person date) ↔
        (∀ dated ∈ (valuesOf person schedules).find? (·.inForce date.instant),
          dated.inForce (scanDate date.date) = true) ∧
        ∀ other ∈ valuesOf person schedules, other.inForce (scanDate date.date) = true →
          ∃ dated ∈ valuesOf person schedules, dated.inForce date.instant = true ∧
            other.effectiveFrom ≤ dated.effectiveFrom) ∧
      (ahead date < day → -day < ahead date →
        (IsAssigned (valuesOf person schedules) date.date (schedules.picked person date) ↔
          ∀ other ∈ valuesOf person schedules, other.inForce (scanDate date.date) = true →
            ∃ dated ∈ valuesOf person schedules, dated.inForce (scanDate date.date) = true ∧
              other.effectiveFrom ≤ dated.effectiveFrom ∧
              (0 < ahead date → dated.effectiveFrom ≠ scanDate date.date) ∧
              (ahead date < 0 → dated.effectiveTo ≠ some (scanDate date.date)))) := by
  have sorted := newestFirst_valuesOf loaded person
  refine ⟨forPerson_eq schedules person date, isAssigned_find_iff sorted, fun early late => ?_⟩
  have matches_iff : ∀ dated ∈ valuesOf person schedules, dated.inForce date.instant = true ↔
      dated.inForce (scanDate date.date) = true ∧
        (0 < ahead date → dated.effectiveFrom ≠ scanDate date.date) ∧
        (ahead date < 0 → dated.effectiveTo ≠ some (scanDate date.date)) :=
    fun _ listed => inForce_instant_iff loaded listed early late
  rw [ScheduleSet.picked, isAssigned_find_iff sorted]
  constructor
  · rintro ⟨-, matched⟩ other listed inForce
    obtain ⟨dated, datedListed, datedMatches, newer⟩ := matched other listed inForce
    obtain ⟨datedInForce, days⟩ := (matches_iff dated datedListed).mp datedMatches
    exact ⟨dated, datedListed, datedInForce, newer, days⟩
  · intro matched
    constructor
    · intro dated found
      exact ((matches_iff dated (List.mem_of_find?_eq_some found)).mp (List.find?_some found)).1
    · intro other listed inForce
      obtain ⟨dated, datedListed, datedInForce, newer, days⟩ := matched other listed inForce
      exact ⟨dated, datedListed, (matches_iff dated datedListed).mpr ⟨datedInForce, days⟩, newer⟩

/-! One assignment on the first of August 2026, with or without an end on that day. -/

def firstOfAugust (effectiveTo : Option Int) : Sources :=
  .blank [] [⟨3, 1, [1, 2, 3, 4, 5, 6, 7], 8 * hour, 17 * hour, 10, 4 * hour⟩]
    [⟨2, 3, 20666, effectiveTo⟩]

def dayShift : Schedule := ⟨[1, 2, 3, 4, 5, 6, 0], 8 * hour, 17 * hour, 10⟩

def openEnded : ScheduleSet := [(uuidOut 2, [⟨20666 * day, none, dayShift⟩])]

theorem forPerson_isAssigned_utc :
    IsAssigned (valuesOf (uuidOut 2) openEnded) ((Location.fixed 0).midnight 20666).date
        (openEnded.picked (uuidOut 2) ((Location.fixed 0).midnight 20666)) ↔
      (∀ dated ∈ (valuesOf (uuidOut 2) openEnded).find?
          (·.inForce ((Location.fixed 0).midnight 20666).instant),
        dated.inForce (scanDate ((Location.fixed 0).midnight 20666).date) = true) ∧
      ∀ other ∈ valuesOf (uuidOut 2) openEnded,
        other.inForce (scanDate ((Location.fixed 0).midnight 20666).date) = true →
          ∃ dated ∈ valuesOf (uuidOut 2) openEnded,
            dated.inForce ((Location.fixed 0).midnight 20666).instant = true ∧
              other.effectiveFrom ≤ dated.effectiveFrom :=
  (@forPerson_isAssigned_iff (firstOfAugust none) 1 openEnded (by decide +kernel) (uuidOut 2)
    ((Location.fixed 0).midnight 20666)).2.1

/-- East of Greenwich the first day does not count, west of it the last day does not. -/
theorem forPerson_firstAndLastDay :
    (loadSchedules (firstOfAugust none) 1).toOption.map (fun schedules =>
      ((valuesOf (uuidOut 2) schedules).map (DatedSchedule.inForce (scanDate 20666)),
        ScheduleSet.forPerson schedules (uuidOut 2)
          (businessDate (20666 * day + 9 * hour) (defaultRules (.fixed (3 * hour)))))) =
      some ([true], none) ∧
    (businessDate (20666 * day + 9 * hour) (defaultRules (.fixed (3 * hour)))).date = 20666 ∧
    (loadSchedules (firstOfAugust (some 20666)) 1).toOption.map (fun schedules =>
      ((valuesOf (uuidOut 2) schedules).map (DatedSchedule.inForce (scanDate 20666)),
        ScheduleSet.forPerson schedules (uuidOut 2)
          (businessDate (20666 * day + 17 * hour) (defaultRules (.fixed (-5 * hour)))))) =
      some ([true], none) ∧
    (businessDate (20666 * day + 17 * hour) (defaultRules (.fixed (-5 * hour)))).date = 20666 := by
  decide +kernel

end Presence.Attendance
