import Mathlib.Data.Finset.Basic
import Mathlib.Data.List.Sort
import Mathlib.Data.String.Basic
import Presence.Data.Keyed
import Presence.Go.Time
import Presence.Postgres.Types

namespace Presence.Attendance

open Presence.Data Presence.Go Presence.Postgres

/-! # The projector

`projector.go`: what a recompute found and what it wrote, compared, become the
events for the consumers.  A map of snapshots is a `Keyed` list, a payload is the
value that is marshalled, and a date printed as `2006-01-02` is the day it names.
A person is the text of the person's id.
-/

structure SpanSnapshot where
  personId : String
  inEventId : Option Int
  outEventId : Option Int
  businessDate : Time
  startedAt : Int
  endedAt : Option Int
  anomalies : List String
deriving DecidableEq, Repr

structure SpanKey where
  inEventId : Int
  outEventId : Int
deriving DecidableEq, Repr

/-- Ids count from 1, so 0 stands for none. -/
def deref (id : Option Int) : Int := id.getD 0

def SpanSnapshot.key (span : SpanSnapshot) : SpanKey := ⟨deref span.inEventId, deref span.outEventId⟩

def sameStrings (left right : List String) : Bool :=
  decide (left.length = right.length) &&
    decide (left.insertionSort (· ≤ ·) = right.insertionSort (· ≤ ·))

/-- Neither the person nor the business date is compared. -/
def SpanSnapshot.equal (span other : SpanSnapshot) : Bool :=
  decide (span.startedAt = other.startedAt) && decide (span.endedAt = other.endedAt) &&
    sameStrings span.anomalies other.anomalies

structure DaySnapshot where
  personId : String
  businessDate : Time
  firstInAt : Option Int
  lastOutAt : Option Int
  totalSeconds : Int
  spanCount : Int
  isPresent : Bool
  isLate : Bool
  needsReview : Bool
deriving DecidableEq, Repr

structure DayKey where
  personId : String
  businessDate : Int
deriving DecidableEq, Repr

def DaySnapshot.key (day : DaySnapshot) : DayKey := ⟨day.personId, day.businessDate.date⟩

def DaySnapshot.equal (day other : DaySnapshot) : Bool :=
  decide (day.totalSeconds = other.totalSeconds) && decide (day.spanCount = other.spanCount) &&
    decide (day.isPresent = other.isPresent) && decide (day.isLate = other.isLate) &&
    decide (day.needsReview = other.needsReview) && decide (day.firstInAt = other.firstInAt) &&
    decide (day.lastOutAt = other.lastOutAt)

/-! ## Outbox rows -/

inductive EventType where
  | spanUpserted | spanRemoved | dayUpserted | dayRemoved
deriving DecidableEq, Repr

structure SpanSubj where
  personId : String
  inEventId : Option Int
  outEventId : Option Int
deriving DecidableEq, Repr

structure SpanData where
  businessDate : Int
  startedAt : Int
  endedAt : Option Int
  durationSeconds : Int
  isOpen : Bool
  anomalies : List String
deriving DecidableEq, Repr

structure SpanEventPayload where
  eventId : Uuid
  eventType : EventType
  orgId : String
  emittedAt : Int
  subject : SpanSubj
  data : Option SpanData
deriving DecidableEq, Repr

structure DaySubj where
  personId : String
  businessDate : Int
deriving DecidableEq, Repr

structure DayData where
  firstInAt : Option Int
  lastOutAt : Option Int
  totalSeconds : Int
  spanCount : Int
  isPresent : Bool
  isLate : Bool
  needsReview : Bool
deriving DecidableEq, Repr

structure DayEventPayload where
  eventId : Uuid
  eventType : EventType
  orgId : String
  emittedAt : Int
  subject : DaySubj
  data : Option DayData
deriving DecidableEq, Repr

inductive Payload where
  | span (payload : SpanEventPayload)
  | day (payload : DayEventPayload)
deriving DecidableEq, Repr

structure OutboxRow where
  eventId : Uuid
  eventType : EventType
  personId : String
  businessDate : Option Time
  inEventId : Option Int
  outEventId : Option Int
  payload : Payload
deriving DecidableEq, Repr

def spanDurationSeconds (span : SpanSnapshot) : Int :=
  match span.endedAt with
  | none => 0
  | some ended => seconds (sub ended span.startedAt)

def SpanSnapshot.data (span : SpanSnapshot) : SpanData where
  businessDate := span.businessDate.date
  startedAt := span.startedAt
  endedAt := span.endedAt
  durationSeconds := spanDurationSeconds span
  isOpen := span.endedAt.isNone
  anomalies := span.anomalies

def spanRow (orgId : String) (eventType : EventType) (span : SpanSnapshot) (emittedAt : Int)
    (eventId : Uuid) : OutboxRow where
  eventId
  eventType
  personId := span.personId
  businessDate := none
  inEventId := span.inEventId
  outEventId := span.outEventId
  payload := .span
    { eventId, eventType, orgId, emittedAt
      subject := ⟨span.personId, span.inEventId, span.outEventId⟩
      data := if eventType = .spanUpserted then some span.data else none }

def DaySnapshot.data (day : DaySnapshot) : DayData :=
  ⟨day.firstInAt, day.lastOutAt, day.totalSeconds, day.spanCount, day.isPresent, day.isLate,
    day.needsReview⟩

def dayRow (orgId : String) (eventType : EventType) (day : DaySnapshot) (emittedAt : Int)
    (eventId : Uuid) : OutboxRow where
  eventId
  eventType
  personId := day.personId
  businessDate := some day.businessDate
  inEventId := none
  outEventId := none
  payload := .day
    { eventId, eventType, orgId, emittedAt
      subject := ⟨day.personId, day.businessDate.date⟩
      data := if eventType = .dayUpserted then some day.data else none }

/-! ## Differences -/

def spanEvent : Change SpanSnapshot → EventType
  | .upserted _ => .spanUpserted
  | .removed _ => .spanRemoved

def dayEvent : Change DaySnapshot → EventType
  | .upserted _ => .dayUpserted
  | .removed _ => .dayRemoved

/-- `newId index` is the id drawn for the row of that index. -/
def diffSpans (orgId : String) (before after : Keyed SpanSnapshot.key) (emittedAt : Int)
    (newId : Nat → Uuid) : List OutboxRow :=
  (Keyed.diff SpanSnapshot.equal before after).zipIdx.map fun (change, index) =>
    spanRow orgId (spanEvent change) change.subject emittedAt (newId index)

def diffDays (orgId : String) (before after : Keyed DaySnapshot.key) (emittedAt : Int)
    (newId : Nat → Uuid) : List OutboxRow :=
  (Keyed.diff DaySnapshot.equal before after).zipIdx.map fun (change, index) =>
    dayRow orgId (dayEvent change) change.subject emittedAt (newId index)

/-! ## What the rows say

A span event read back: the person it names and the data it carries, anomalies as
a set.
-/

structure SpanView where
  personId : String
  businessDate : Int
  startedAt : Int
  endedAt : Option Int
  anomalies : Finset String
deriving DecidableEq

def SpanData.view (personId : String) (data : SpanData) : SpanView :=
  ⟨personId, data.businessDate, data.startedAt, data.endedAt, data.anomalies.toFinset⟩

def SpanEventPayload.view (payload : SpanEventPayload) : Option SpanView :=
  payload.data.map (SpanData.view payload.subject.personId)

def SpanSnapshot.view (span : SpanSnapshot) : SpanView := span.data.view span.personId

namespace OutboxRow

end OutboxRow

theorem sameStrings_iff {left right : List String} :
    sameStrings left right = true ↔ left.Perm right := by
  have sortedLeft := List.perm_insertionSort (· ≤ ·) left
  have sortedRight := List.perm_insertionSort (· ≤ ·) right
  simp only [sameStrings, Bool.and_eq_true, decide_eq_true_eq]
  constructor
  · intro given
    obtain ⟨-, same⟩ := given
    exact sortedLeft.symm.trans (same ▸ sortedRight)
  · intro perm
    have sorted := sortedLeft.trans (perm.trans sortedRight.symm)
    refine ⟨perm.length_eq, ?_⟩
    exact List.Perm.eq_of_sortedLE List.sortedLE_insertionSort List.sortedLE_insertionSort sorted

theorem SpanSnapshot.equal_iff {prev next : SpanSnapshot} :
    prev.equal next = true ↔ prev.startedAt = next.startedAt ∧ prev.endedAt = next.endedAt ∧
      prev.anomalies.Perm next.anomalies := by
  simp [SpanSnapshot.equal, sameStrings_iff, and_assoc]

theorem SpanSnapshot.view_eq_iff {prev next : SpanSnapshot} :
    prev.view = next.view ↔ prev.personId = next.personId ∧
      prev.businessDate.date = next.businessDate.date ∧ prev.startedAt = next.startedAt ∧
      prev.endedAt = next.endedAt ∧ prev.anomalies.toFinset = next.anomalies.toFinset := by
  simp [SpanSnapshot.view, SpanSnapshot.data, SpanData.view]

/-- A row is read back as the change it reports. -/
theorem filterMap_zipIdx_of_eq {α β γ : Type} {make : α × Nat → β} {read : β → Option γ}
    {plain : α → γ} (reads : ∀ value index, read (make (value, index)) = some (plain value))
    (values : List α) : (values.zipIdx.map make).filterMap read = values.map plain := by
  have composed : read ∘ make = some ∘ plain ∘ Prod.fst :=
    funext fun pair => reads pair.1 pair.2
  rw [List.filterMap_map, composed, List.filterMap_eq_map, ← List.map_map, List.zipIdx_map_fst]

end Presence.Attendance
