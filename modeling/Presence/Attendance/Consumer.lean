import Presence.Attendance.EngineSpec
import Presence.Data.LastWriter
import Presence.Data.Run

namespace Presence.Attendance

open Presence.Data Presence.Go Presence.Gateway Presence.Postgres

/-! # Consumers

A consumer as `docs/events.md` asks for it: it keeps the last event it applied for
each subject, and applies an event only if its `emitted_at` is newer.  That is a
last-writer-wins replica of the derived table, fed by the outbox.  There is one
endpoint, which gets the events of every organisation.
-/

namespace OutboxRow

def spanPayload (row : OutboxRow) : Option SpanEventPayload :=
  match row.payload with
  | .span payload => some payload
  | .day _ => none

def dayPayload (row : OutboxRow) : Option DayEventPayload :=
  match row.payload with
  | .span _ => none
  | .day payload => some payload

end OutboxRow

namespace Tables

def events (tables : Tables) : List OutboxRow := tables.outbox.values.map OutboxEventRow.event

def spanEvents (tables : Tables) : List SpanEventPayload :=
  tables.events.filterMap OutboxRow.spanPayload

def dayEvents (tables : Tables) : List DayEventPayload :=
  tables.events.filterMap OutboxRow.dayPayload

end Tables

def SpanEventPayload.write (payload : SpanEventPayload) : Write (Option Int) Int SpanView :=
  ⟨anchor payload.subject.inEventId payload.subject.outEventId, payload.emittedAt, payload.view⟩

def DayEventPayload.write (payload : DayEventPayload) : Write DayKey Int DayData :=
  ⟨⟨payload.subject.personId, payload.subject.businessDate⟩, payload.emittedAt, payload.data⟩

/-- What the consumer holds after these events were delivered in this order. -/
def spanConsumer (delivered : List SpanEventPayload) : Replica (Option Int) Int SpanView :=
  Replica.receive (delivered.map SpanEventPayload.write)

def dayConsumer (delivered : List DayEventPayload) : Replica DayKey Int DayData :=
  Replica.receive (delivered.map DayEventPayload.write)

/-! ## The events of one call -/

variable {tables next : Tables} {org : Uuid} {queried : Queried} {window : Window} {orgId : String}
  {emittedAt : Int}

theorem diffSpans_spanWrites {before after : Keyed SpanSnapshot.key} {newId : Nat → Uuid} :
    ((diffSpans orgId before after emittedAt newId).filterMap OutboxRow.spanPayload).map
        SpanEventPayload.write =
      diffBatch SpanSnapshot.anchor SpanSnapshot.view emittedAt
        (Keyed.diff SpanSnapshot.equal before after) := by
  rw [List.map_filterMap]
  apply filterMap_zipIdx_of_eq
  intro change index
  cases change <;> rfl

theorem diffDays_dayWrites {before after : Keyed DaySnapshot.key} {newId : Nat → Uuid} :
    ((diffDays orgId before after emittedAt newId).filterMap OutboxRow.dayPayload).map
        DayEventPayload.write =
      diffBatch DaySnapshot.key DaySnapshot.data emittedAt
        (Keyed.diff DaySnapshot.equal before after) := by
  rw [List.map_filterMap]
  apply filterMap_zipIdx_of_eq
  intro change index
  cases change <;> rfl

theorem diffDays_spanPayload {before after : Keyed DaySnapshot.key} {newId : Nat → Uuid} :
    (diffDays orgId before after emittedAt newId).filterMap OutboxRow.spanPayload = [] := by
  simp [diffDays, dayRow, OutboxRow.spanPayload]

theorem diffSpans_dayPayload {before after : Keyed SpanSnapshot.key} {newId : Nat → Uuid} :
    (diffSpans orgId before after emittedAt newId).filterMap OutboxRow.dayPayload = [] := by
  simp [diffSpans, spanRow, OutboxRow.dayPayload]

namespace Committed

variable (committed : Committed tables next org queried window orgId emittedAt)
include committed

theorem events : ∃ spanId dayId, next.events = tables.events ++
    (diffSpans orgId (loadSpanSnapshots tables.spans org window)
        (.ofList (queried.spanSnapshots window)) emittedAt spanId ++
      diffDays orgId (loadDaySnapshots tables.days org window)
        (.ofList (queried.daySnapshots window)) emittedAt dayId) := by
  obtain ⟨spanId, dayId, appended⟩ := committed.outbox
  refine ⟨spanId, dayId, ?_⟩
  rw [Tables.events, appended, List.map_append, List.map_map]
  exact congrArg _ (List.map_id _)

theorem spanWrites :
    next.spanEvents.map SpanEventPayload.write =
      tables.spanEvents.map SpanEventPayload.write ++
        diffBatch SpanSnapshot.anchor SpanSnapshot.view emittedAt
          (Keyed.diff SpanSnapshot.equal (loadSpanSnapshots tables.spans org window)
            (.ofList (queried.spanSnapshots window))) := by
  obtain ⟨spanId, dayId, appended⟩ := committed.events
  rw [Tables.spanEvents, appended, List.filterMap_append, List.filterMap_append,
    diffDays_spanPayload, List.append_nil, List.map_append, diffSpans_spanWrites]
  rfl

theorem dayWrites :
    next.dayEvents.map DayEventPayload.write =
      tables.dayEvents.map DayEventPayload.write ++
        diffBatch DaySnapshot.key DaySnapshot.data emittedAt
          (Keyed.diff DaySnapshot.equal (loadDaySnapshots tables.days org window)
            (.ofList (queried.daySnapshots window))) := by
  obtain ⟨spanId, dayId, appended⟩ := committed.events
  rw [Tables.dayEvents, appended, List.filterMap_append, List.filterMap_append,
    diffSpans_dayPayload, List.nil_append, List.map_append, diffDays_dayWrites]
  rfl

end Committed

/-! ## A small organisation

In Nairobi on 2026-09-17, one person, who arrives at 08:00 and leaves at 17:00.
-/

def sampleDay : Int := 20713 * day

def sampleOrg : Uuid := 0x11111111111111111111111111111111#128

def samplePunch (id : Nat) (direction : PunchDirection) (localTime : Int) : PunchEventRow where
  id
  orgId := sampleOrg
  deviceId := 0x22222222222222222222222222222222#128
  deviceSeq := id
  eventUuid := BitVec.ofNat 128 id
  credentialKind := .fingerprint
  slotNo := some 1
  credentialRef := none
  matchScore := none
  status := .resolved
  personId := some 0x33333333333333333333333333333333#128
  credentialId := none
  unresolvedReason := none
  capturedAt := sampleDay + localTime - 3 * hour
  capturedUptimeMs := none
  receivedAt := sampleDay + localTime - 3 * hour
  effectiveAt := sampleDay + localTime - 3 * hour
  srcTime := .rtcSynced
  timeConf := .high
  clockSkewMs := 0
  isBackfilled := false
  directionHint := direction
  direction
  rawDeviceMode := "bidirectional"

/-- The first so many punches of the day. -/
def samplePunches (count : Nat) : List PunchEventRow :=
  [samplePunch 1 .in (8 * hour), samplePunch 2 .out (17 * hour)].take count

def sampleSources (count : Nat) (primaryKey : ((samplePunches count).map PunchEventRow.id).Nodup)
    (bigserial : ∀ row ∈ samplePunches count, 0 < row.id)
    (effectiveAt : ∀ row ∈ samplePunches count, timestamptz row.effectiveAt = row.effectiveAt) :
    Sources where
  organization := [⟨sampleOrg, "Africa/Nairobi"⟩]
  punchEvent := samplePunches count
  punchAmendment := []
  schedule := []
  personSchedule := []
  primaryKey
  bigserial
  effectiveAt
  newEffectiveAt := by simp

def arrived : Sources := sampleSources 1 (by decide) (by decide) (by decide)

def departed : Sources := sampleSources 2 (by decide) (by decide) (by decide)

/-- A recompute of that day, the noon of it in UTC. -/
def sampleCall (sources : Sources) (emittedAt : Int) : Call where
  orgId := "11111111-1111-1111-1111-111111111111"
  lower := sampleDay + 12 * hour
  upper := sampleDay + 12 * hour
  sources
  emittedAt
  newId := fun index => BitVec.ofNat 128 (emittedAt.toNat + index)

def sampleLocation (timezone : String) : Option Location :=
  if timezone = "Africa/Nairobi" then some (.fixed (3 * hour)) else none

end Presence.Attendance
