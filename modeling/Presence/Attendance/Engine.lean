import Presence.Attendance.Projector
import Presence.Attendance.Queries

namespace Presence.Attendance

open Presence.Data Presence.Go Presence.Gateway Presence.Postgres

/-! # The engine

`Engine.Recompute` and the tables it writes.  One call is one transaction: it
reads, deletes the window, inserts what the punches pair into, and appends to the
outbox, or leaves everything as it was.
-/

/-! ## Tables -/

structure SpanRow where
  orgId : Uuid
  personId : String
  businessDate : Int
  inEventId : Option Int
  outEventId : Option Int
  startedAt : Int
  endedAt : Option Int
  anomalies : List String
deriving DecidableEq, Repr

/-- `attendance_span` and its unique index. -/
structure SpanTable where
  rows : List SpanRow
  inEventIdx : (rows.filterMap SpanRow.inEventId).Nodup

structure DayRow where
  orgId : Uuid
  personId : String
  businessDate : Int
  firstInAt : Option Int
  lastOutAt : Option Int
  totalS : Int
  spanCount : Int
  isPresent : Bool
  isLate : Bool
  needsReview : Bool
deriving DecidableEq, Repr

/-- The primary key of `attendance_day`. -/
def DayRow.key (row : DayRow) : DayKey := ⟨row.personId, row.businessDate⟩

structure OutboxEventRow where
  orgId : Uuid
  event : OutboxRow
deriving DecidableEq, Repr

def OutboxEventRow.id (row : OutboxEventRow) : Uuid := row.event.eventId

structure Tables where
  spans : SpanTable
  days : Keyed DayRow.key
  outbox : Keyed OutboxEventRow.id

def Tables.empty : Tables := ⟨⟨[], List.nodup_nil⟩, .empty, .empty⟩

/-! ## Statements -/

/-- The business dates from the first to the last. -/
structure Window where
  first : Time
  last : Time
deriving DecidableEq, Repr

namespace Window

/-- `business_date BETWEEN $2 AND $3`: the server compares calendar dates. -/
def covers (window : Window) (businessDate : Int) : Bool :=
  decide (window.first.date ≤ businessDate ∧ businessDate ≤ window.last.date)

/-- The `WHERE` clause that loads and deletes share. -/
def selects (window : Window) (org orgId : Uuid) (businessDate : Int) : Bool :=
  decide (orgId = org) && window.covers businessDate

theorem selects_iff {window : Window} {org orgId : Uuid} {businessDate : Int} :
    window.selects org orgId businessDate = true ↔
      orgId = org ∧ window.covers businessDate = true := by
  simp [selects]

/-- The engine compares instants. -/
def requested (window : Window) (date : Time) : Bool :=
  decide (window.first.instant ≤ date.instant ∧ date.instant ≤ window.last.instant)

end Window

def SpanRow.inScope (org : Uuid) (window : Window) (row : SpanRow) : Bool :=
  window.selects org row.orgId row.businessDate

def DayRow.inScope (org : Uuid) (window : Window) (row : DayRow) : Bool :=
  window.selects org row.orgId row.businessDate

/-- A scanned `date` is a midnight in UTC. -/
def scannedDate (column : Int) : Time := ⟨scanDate column, 0⟩

def SpanRow.snapshot (row : SpanRow) : SpanSnapshot where
  personId := row.personId
  inEventId := row.inEventId
  outEventId := row.outEventId
  businessDate := scannedDate row.businessDate
  startedAt := row.startedAt
  endedAt := row.endedAt
  anomalies := row.anomalies

def DayRow.snapshot (row : DayRow) : DaySnapshot where
  personId := row.personId
  businessDate := scannedDate row.businessDate
  firstInAt := row.firstInAt
  lastOutAt := row.lastOutAt
  totalSeconds := row.totalS
  spanCount := row.spanCount
  isPresent := row.isPresent
  isLate := row.isLate
  needsReview := row.needsReview

def loadSpanSnapshots (table : SpanTable) (org : Uuid) (window : Window) :
    Keyed SpanSnapshot.key :=
  .ofList ((table.rows.filter (SpanRow.inScope org window)).map SpanRow.snapshot)

def loadDaySnapshots (table : Keyed DayRow.key) (org : Uuid) (window : Window) :
    Keyed DaySnapshot.key :=
  .ofList ((table.values.filter (DayRow.inScope org window)).map DayRow.snapshot)

def clearSpans (table : SpanTable) (org : Uuid) (window : Window) : SpanTable where
  rows := table.rows.filter (!SpanRow.inScope org window ·)
  inEventIdx := table.inEventIdx.sublist (List.filter_sublist.filterMap _)

def clearDays (table : Keyed DayRow.key) (org : Uuid) (window : Window) : Keyed DayRow.key :=
  table.filter (!DayRow.inScope org window ·)

/-- The columns of an insert: dates as calendar dates, instants as timestamptz. -/
def SpanSnapshot.row (org : Uuid) (span : SpanSnapshot) : SpanRow where
  orgId := org
  personId := span.personId
  businessDate := span.businessDate.date
  inEventId := span.inEventId
  outEventId := span.outEventId
  startedAt := timestamptz span.startedAt
  endedAt := span.endedAt.map timestamptz
  anomalies := span.anomalies

def DaySnapshot.row (org : Uuid) (day : DaySnapshot) : DayRow where
  orgId := org
  personId := day.personId
  businessDate := day.businessDate.date
  firstInAt := day.firstInAt.map timestamptz
  lastOutAt := day.lastOutAt.map timestamptz
  totalS := day.totalSeconds
  spanCount := day.spanCount
  isPresent := day.isPresent
  isLate := day.isLate
  needsReview := day.needsReview

/-- The generated column `duration_s`, rounded to the second. -/
def SpanRow.durationS (row : SpanRow) : Option Int :=
  row.endedAt.map fun ended => (2 * (ended - row.startedAt) + second) / (2 * second)

def insertSpan (table : SpanTable) (row : SpanRow) : Except Postgres.Error SpanTable :=
  if row.endedAt.any (· < row.startedAt) then .error (.checkViolation "attendance_span_order")
  else if row.durationS.any (!fitsInt4 ·) then .error (.outOfRange "duration_s")
  else if unused : ∀ id ∈ row.inEventId, id ∉ table.rows.filterMap SpanRow.inEventId then
    .ok
      { rows := table.rows ++ [row]
        inEventIdx := by
          rw [List.filterMap_append]
          refine List.nodup_append.mpr ⟨table.inEventIdx, ?_, ?_⟩
          · rw [List.filterMap_cons]
            split <;> simp
          · intro id known other new same
            have here : row.inEventId = some other := by simpa using new
            exact unused other here (same ▸ known) }
  else .error (.uniqueViolation "attendance_span_in_event_idx")

def insertDay (table : Keyed DayRow.key) (row : DayRow) :
    Except Postgres.Error (Keyed DayRow.key) :=
  if !fitsInt4 row.totalS then .error (.outOfRange "total_s")
  else if !fitsInt4 row.spanCount then .error (.outOfRange "span_count")
  else
    match table.add row with
    | none => .error (.uniqueViolation "attendance_day_pkey")
    | some table => .ok table

/-- `outbox_event_subject`. -/
def OutboxRow.hasSubject (row : OutboxRow) : Bool :=
  let anchored := row.inEventId.isSome || row.outEventId.isSome
  if row.businessDate.isSome then !anchored else anchored

def insertOutboxEvent (table : Keyed OutboxEventRow.id) (row : OutboxEventRow) :
    Except Postgres.Error (Keyed OutboxEventRow.id) :=
  if !row.event.hasSubject then .error (.checkViolation "outbox_event_subject")
  else
    match table.add row with
    | none => .error (.uniqueViolation "outbox_event_pkey")
    | some table => .ok table

/-! ## Rewriting the window -/

structure Result where
  people : Nat
  days : Nat
  spans : Nat
  needsReview : Nat
  events : Nat
deriving DecidableEq, Repr

/-- What the queries before the transaction returned. -/
structure Queried where
  rules : Rules
  byPerson : List (String × List Punch)
  schedules : ScheduleSet

def Queried.window (queried : Queried) (lower upper : Int) : Window :=
  ⟨businessDate lower queried.rules, businessDate upper queried.rules⟩

/-- The variables of the loop over the people. -/
structure Rewrite where
  spans : SpanTable
  days : Keyed DayRow.key
  afterSpans : Keyed SpanSnapshot.key
  afterDays : Keyed DaySnapshot.key
  result : Result

def spanSnapshot (person : String) (date : Time) (span : Span) : SpanSnapshot where
  personId := person
  inEventId := span.inEventId
  outEventId := span.outEventId
  businessDate := date
  startedAt := span.startedAt
  endedAt := span.endedAt
  anomalies := span.anomalies.map Anomaly.text

def daySnapshot (person : String) (day : Day) : DaySnapshot where
  personId := person
  businessDate := day.businessDate
  firstInAt := day.firstInAt
  lastOutAt := day.lastOutAt
  totalSeconds := seconds day.total
  spanCount := day.spanCount
  isPresent := day.isPresent
  isLate := day.isLate
  needsReview := day.needsReview

def writeSpan (org : Uuid) (person : String) (date : Time) (state : Rewrite) (span : Span) :
    Except RecomputeError Rewrite := do
  let snapshot := spanSnapshot person date span
  let spans ← (insertSpan state.spans (snapshot.row org)).mapError .insertSpan
  return { state with
    spans
    afterSpans := state.afterSpans.set snapshot
    result := { state.result with spans := state.result.spans + 1 } }

def writeDay (org : Uuid) (queried : Queried) (person : String) (state : Rewrite)
    (group : Time × List Span) : Except RecomputeError Rewrite := do
  let (date, spans) := group
  let state ← spans.foldlM (writeSpan org person date) state
  let day := rollup date spans (queried.schedules.forPerson person date) queried.rules
  let snapshot := daySnapshot person day
  let days ← (insertDay state.days (snapshot.row org)).mapError .insertDay
  return { state with
    days
    afterDays := state.afterDays.set snapshot
    result :=
      { state.result with
        days := state.result.days + 1
        needsReview := state.result.needsReview + if day.needsReview then 1 else 0 } }

/-- The business days of a person that fall into the window. -/
def Queried.groups (queried : Queried) (window : Window) (punches : List Punch) :
    List (Time × List Span) :=
  (groupByBusinessDate (pair punches queried.rules) queried.rules).filter (window.requested ·.1)

def writePerson (org : Uuid) (queried : Queried) (window : Window) (state : Rewrite)
    (entry : String × List Punch) : Except RecomputeError Rewrite := do
  let (person, punches) := entry
  let groups := queried.groups window punches
  let state ← groups.foldlM (writeDay org queried person) state
  let people := state.result.people + if groups.isEmpty then 0 else 1
  return { state with result := { state.result with people } }

/-! ## Recompute -/

structure Call where
  orgId : String
  /-- Instants in UTC, as `cmd/recompute` passes them. -/
  lower : Int
  upper : Int
  sources : Sources
  emittedAt : Int
  newId : Nat → Uuid

def lookbackDays : Int := 2

section

variable (loadLocation : String → Option Location)

/-- Everything that comes before the transaction. -/
def Call.query (call : Call) : Except RecomputeError (Uuid × Queried) := do
  match uuidIn call.orgId with
  | none => .error .orgId
  | some org =>
      let rules ← orgRules loadLocation call.sources org
      let fetchFrom := timestamptz (call.lower - lookbackDays * day)
      let fetchTo := timestamptz (call.upper + (lookbackDays + 1) * day)
      let byPerson := loadPunches call.sources org fetchFrom fetchTo
      let schedules ← loadSchedules call.sources org
      return (org, ⟨rules, byPerson, schedules⟩)

def transaction (tables : Tables) (org : Uuid) (queried : Queried) (call : Call) :
    Except RecomputeError (Tables × Result) := do
  let window := queried.window call.lower call.upper
  let beforeSpans := loadSpanSnapshots tables.spans org window
  let beforeDays := loadDaySnapshots tables.days org window
  let cleared : Rewrite :=
    ⟨clearSpans tables.spans org window, clearDays tables.days org window, .empty, .empty,
      ⟨0, 0, 0, 0, 0⟩⟩
  let written ← queried.byPerson.foldlM (writePerson org queried window) cleared
  let spanEvents := diffSpans call.orgId beforeSpans written.afterSpans call.emittedAt call.newId
  let dayEvents := diffDays call.orgId beforeDays written.afterDays call.emittedAt
    fun index => call.newId (spanEvents.length + index)
  let events := spanEvents ++ dayEvents
  let outbox ← (events.foldlM (fun outbox event => insertOutboxEvent outbox ⟨org, event⟩)
    tables.outbox).mapError .insertOutboxEvent
  return (⟨written.spans, written.days, outbox⟩, { written.result with events := events.length })

def recompute (tables : Tables) (call : Call) : Except RecomputeError (Tables × Result) := do
  let (org, queried) ← call.query loadLocation
  transaction tables org queried call

/-! ## Runs

Recomputes run one after the other, each at a later time than the one before.  A
call whose database fails on the way is rolled back like one that returns an error.
-/

structure State where
  tables : Tables
  clock : Int

def State.initial (clock : Int) : State := ⟨.empty, clock⟩

inductive Input where
  | recompute (call : Call)
  | fault (emittedAt : Int)

def State.step (state : State) : Input → Option State
  | .recompute call =>
      if call.emittedAt ≤ state.clock then none
      else
        match recompute loadLocation state.tables call with
        | .error _ => some { state with clock := call.emittedAt }
        | .ok (tables, _) => some ⟨tables, call.emittedAt⟩
  | .fault emittedAt =>
      if emittedAt ≤ state.clock then none else some { state with clock := emittedAt }

end

end Presence.Attendance
