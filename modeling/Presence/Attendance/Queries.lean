import Presence.Attendance.Rules

namespace Presence.Attendance

open Presence.Data Presence.Go Presence.Gateway Presence.Postgres

/-! # What a recompute reads

The queries of `engine.go` over the tables it never writes.  A `time` column
counts nanoseconds from midnight, a `date` column days from 1970-01-01.
-/

structure OrganizationRow where
  id : Uuid
  timezone : String
deriving DecidableEq, Repr

structure PunchAmendmentRow where
  punchEventId : Nat
  newDirection : Option PunchDirection
  newEffectiveAt : Option Int
  newPersonId : Option Uuid
  voided : Bool
  createdAt : Int
deriving DecidableEq, Repr

structure ScheduleRow where
  id : Uuid
  orgId : Uuid
  weekdays : List Int
  expectedIn : Int
  expectedOut : Int
  graceMinutes : Int
  dayBoundary : Int
deriving DecidableEq, Repr

structure PersonScheduleRow where
  personId : Uuid
  scheduleId : Uuid
  effectiveFrom : Int
  effectiveTo : Option Int
deriving DecidableEq, Repr

/-- The tables at the time of the queries.  A timestamptz holds whole microseconds,
and a bigserial counts from 1. -/
structure Sources where
  organization : List OrganizationRow
  punchEvent : List PunchEventRow
  punchAmendment : List PunchAmendmentRow
  /-- In the order of their names. -/
  schedule : List ScheduleRow
  personSchedule : List PersonScheduleRow
  primaryKey : (punchEvent.map PunchEventRow.id).Nodup
  bigserial : ∀ row ∈ punchEvent, 0 < row.id
  effectiveAt : ∀ row ∈ punchEvent, timestamptz row.effectiveAt = row.effectiveAt
  newEffectiveAt : ∀ row ∈ punchAmendment, ∀ amended ∈ row.newEffectiveAt,
    timestamptz amended = amended

inductive RecomputeError where
  | orgId
  | loadOrgRules
  | unusableTimezone (timezone : String)
  | loadSchedules
  | insertSpan (error : Postgres.Error)
  | insertDay (error : Postgres.Error)
  | insertOutboxEvent (error : Postgres.Error)
deriving DecidableEq, Repr

/-! ## Rules of the organisation -/

/-- pgx reads a `time` into a `time.Time` unless it is 24:00. -/
def scanTime (column : Int) : Option Int := if column < day then some column else none

def orgRules (loadLocation : String → Option Location) (db : Sources) (org : Uuid) :
    Except RecomputeError Rules :=
  match db.organization.find? (·.id = org) with
  | none => .error .loadOrgRules
  | some row =>
      let column := ((db.schedule.find? (·.orgId = org)).map ScheduleRow.dayBoundary).getD (4 * hour)
      match scanTime column, loadLocation row.timezone with
      | none, _ => .error .loadOrgRules
      | some _, none => .error (.unusableTimezone row.timezone)
      | some boundary, some location =>
          -- the hour and the minute
          .ok { defaultRules location with dayBoundary := boundary - boundary % minute }

/-! ## Punches -/

namespace Sources

def amendments (db : Sources) (event : Nat) : List PunchAmendmentRow :=
  (db.punchAmendment.filter (·.punchEventId = event)).insertionSort
    (fun first second => second.createdAt ≤ first.createdAt)

/-- The newest amendment that sets the field. -/
def amended {α : Type} (db : Sources) (event : Nat) (field : PunchAmendmentRow → Option α) :
    Option α :=
  ((db.amendments event).filterMap field).head?

def voided (db : Sources) (event : Nat) : Bool :=
  (db.amendments event).any PunchAmendmentRow.voided

end Sources

/-- Directionless events cannot be paired. -/
def Direction.ofPunch : PunchDirection → Option Direction
  | .in => some .in
  | .out => some .out
  | .unknown => none

/-- One round of the loop of `loadPunches`. -/
def loadPunch (db : Sources) (row : PunchEventRow) : Option (String × Punch) := do
  let person ← row.personId
  if db.voided row.id then none
  else
    let direction := (db.amended row.id PunchAmendmentRow.newDirection).getD row.direction
    let effectiveAt := (db.amended row.id PunchAmendmentRow.newEffectiveAt).getD row.effectiveAt
    let person := (db.amended row.id PunchAmendmentRow.newPersonId).getD person
    let direction ← Direction.ofPunch direction
    some (uuidOut person, ⟨row.id, effectiveAt, direction, row.timeConf⟩)

/-- The `WHERE` clause: it bounds the time the event was recorded with. -/
def fetched (org : Uuid) (fetchFrom fetchTo : Int) (row : PunchEventRow) : Bool :=
  decide (row.orgId = org ∧ row.status = .resolved ∧ row.personId.isSome ∧
    fetchFrom ≤ row.effectiveAt ∧ row.effectiveAt < fetchTo)

def loadedPunches (db : Sources) (org : Uuid) (fetchFrom fetchTo : Int) : List (String × Punch) :=
  ((db.punchEvent.filter (fetched org fetchFrom fetchTo)).insertionSort
    (fun first second => first.effectiveAt ≤ second.effectiveAt)).filterMap (loadPunch db)

def loadPunches (db : Sources) (org : Uuid) (fetchFrom fetchTo : Int) :
    List (String × List Punch) :=
  groupBy Prod.fst Prod.snd (loadedPunches db org fetchFrom fetchTo)

/-- What the rest of a recompute relies on: every event was loaded once. -/
structure Loaded (byPerson : List (String × List Punch)) : Prop where
  distinct : ((byPerson.flatMap Prod.snd).map Punch.eventId).Nodup
  positive : ∀ punch ∈ byPerson.flatMap Prod.snd, 0 < punch.eventId
  aligned : ∀ punch ∈ byPerson.flatMap Prod.snd, timestamptz punch.instant = punch.instant

variable {db : Sources} {org : Uuid} {fetchFrom fetchTo : Int}

theorem Sources.amended_mem {α : Type} {event : Nat} {field : PunchAmendmentRow → Option α}
    {value : α} (found : db.amended event field = some value) :
    ∃ row ∈ db.punchAmendment, field row = some value := by
  obtain ⟨row, member, set⟩ := List.mem_filterMap.mp (List.mem_of_head? found)
  rw [Sources.amendments, List.mem_insertionSort] at member
  exact ⟨row, List.mem_of_mem_filter member, set⟩

theorem loadPunch_eq_some {row : PunchEventRow} {loaded : String × Punch}
    (found : loadPunch db row = some loaded) :
    loaded.2.eventId = row.id ∧
      loaded.2.instant =
        (db.amended row.id PunchAmendmentRow.newEffectiveAt).getD row.effectiveAt := by
  simp only [loadPunch, Option.bind_eq_bind, Option.bind_eq_some_iff] at found
  obtain ⟨person, -, found⟩ := found
  split at found
  next => cases found
  next =>
    obtain ⟨direction, -, found⟩ := Option.bind_eq_some_iff.mp found
    rw [← Option.some.inj found]
    exact ⟨rfl, rfl⟩

theorem mem_loadedPunches {loaded : String × Punch}
    (member : loaded ∈ loadedPunches db org fetchFrom fetchTo) :
    ∃ row ∈ db.punchEvent, loadPunch db row = some loaded := by
  obtain ⟨row, sorted, found⟩ := List.mem_filterMap.mp member
  rw [List.mem_insertionSort] at sorted
  exact ⟨row, List.mem_of_mem_filter sorted, found⟩

theorem loadedPunches_distinct :
    ((loadedPunches db org fetchFrom fetchTo).map fun loaded => loaded.2.eventId).Nodup := by
  simp only [loadedPunches]
  rw [List.Nodup, List.pairwise_map, List.pairwise_filterMap]
  have rows : ((db.punchEvent.filter (fetched org fetchFrom fetchTo)).insertionSort
      (fun first second => first.effectiveAt ≤ second.effectiveAt)).Pairwise
      (fun first second => first.id ≠ second.id) := by
    rw [← List.pairwise_map, ← List.Nodup, ((List.perm_insertionSort _ _).map _).nodup_iff]
    exact db.primaryKey.sublist (List.filter_sublist.map _)
  apply rows.imp
  intro first second different left leftFound right rightFound same
  rw [(loadPunch_eq_some leftFound).1, (loadPunch_eq_some rightFound).1] at same
  exact different (Int.ofNat_inj.mp same)

theorem loaded_loadPunches (db : Sources) (org : Uuid) (fetchFrom fetchTo : Int) :
    Loaded (loadPunches db org fetchFrom fetchTo) := by
  have grouped : ((loadPunches db org fetchFrom fetchTo).flatMap Prod.snd).Perm
      ((loadedPunches db org fetchFrom fetchTo).map Prod.snd) := groupBy_perm _ _ _
  have each : ∀ punch ∈ (loadPunches db org fetchFrom fetchTo).flatMap Prod.snd,
      ∃ row ∈ db.punchEvent, ∃ person, loadPunch db row = some (person, punch) := by
    intro punch member
    obtain ⟨loaded, listed, rfl⟩ := List.mem_map.mp (grouped.mem_iff.mp member)
    obtain ⟨row, stored, found⟩ := mem_loadedPunches listed
    exact ⟨row, stored, loaded.1, found⟩
  refine ⟨?_, fun punch member => ?_, fun punch member => ?_⟩
  · rw [(grouped.map Punch.eventId).nodup_iff, List.map_map]
    exact loadedPunches_distinct
  · obtain ⟨row, stored, person, found⟩ := each punch member
    rw [(loadPunch_eq_some found).1]
    exact Int.natCast_pos.mpr (db.bigserial row stored)
  · obtain ⟨row, stored, person, found⟩ := each punch member
    rw [(loadPunch_eq_some found).2]
    cases amended : db.amended row.id PunchAmendmentRow.newEffectiveAt with
    | none => exact db.effectiveAt row stored
    | some effectiveAt =>
        obtain ⟨amendment, listed, set⟩ := Sources.amended_mem amended
        exact db.newEffectiveAt amendment listed effectiveAt set

/-! ## Schedules -/

structure DatedSchedule where
  effectiveFrom : Int
  effectiveTo : Option Int
  schedule : Schedule
deriving DecidableEq, Repr

abbrev ScheduleSet := List (String × List DatedSchedule)

/-- A `date` is read as its midnight in UTC. -/
def scanDate (column : Int) : Int := column * day

def loadSchedule (db : Sources) (org : Uuid) (row : PersonScheduleRow) :
    Option (Except RecomputeError (String × DatedSchedule)) := do
  let schedule ← db.schedule.find? fun schedule => schedule.id = row.scheduleId ∧ schedule.orgId = org
  match scanTime schedule.expectedIn, scanTime schedule.expectedOut with
  | some expectedIn, some expectedOut =>
      some (.ok (uuidOut row.personId,
        { effectiveFrom := scanDate row.effectiveFrom
          effectiveTo := row.effectiveTo.map scanDate
          schedule :=
            -- ISO counts the days from Monday 1 to Sunday 7
            { weekdays := schedule.weekdays.map (·.tmod 7)
              expectedIn := expectedIn - expectedIn % second
              expectedOut := expectedOut - expectedOut % second
              graceMinutes := schedule.graceMinutes } }))
  | _, _ => some (.error .loadSchedules)

def loadSchedules (db : Sources) (org : Uuid) : Except RecomputeError ScheduleSet := do
  let newestFirst := db.personSchedule.insertionSort
    (fun first second => second.effectiveFrom ≤ first.effectiveFrom)
  let loaded ← (newestFirst.filterMap (loadSchedule db org)).mapM id
  return groupBy Prod.fst Prod.snd loaded

def ScheduleSet.forPerson (schedules : ScheduleSet) (person : String) (date : Time) :
    Option Schedule :=
  let dated := ((schedules.find? (·.1 = person)).map Prod.snd).getD []
  (dated.find? fun dated =>
    decide (dated.effectiveFrom ≤ date.instant) &&
      dated.effectiveTo.all (date.instant ≤ ·)).map DatedSchedule.schedule

end Presence.Attendance
