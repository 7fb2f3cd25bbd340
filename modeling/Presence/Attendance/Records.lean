import Presence.Attendance.Amended
import Presence.Attendance.PairSpec
import Presence.Data.Run

namespace Presence.Attendance

open Presence.Data Presence.Go Presence.Gateway Presence.Postgres

/-! # Records that change between recomputes

What a recompute reads and what it writes, and the four things that happen to them:
a punch is stored, a correction is added, schedules are edited, a window is
recomputed.  A recompute that fails is rolled back.
-/

structure Records where
  sources : Sources
  tables : Tables

/-- A call, but for the tables it reads. -/
structure Request where
  orgId : String
  lower : Int
  upper : Int
  emittedAt : Int
  newId : Nat → Uuid

def Request.call (request : Request) (sources : Sources) : Call where
  orgId := request.orgId
  lower := request.lower
  upper := request.upper
  sources
  emittedAt := request.emittedAt
  newId := request.newId

inductive Occurrence where
  | ingest (row : PunchEventRow)
  | amend (row : PunchAmendmentRow)
  | reschedule (schedule : List ScheduleRow) (personSchedule : List PersonScheduleRow)
  | recompute (request : Request)

namespace Sources

/-- What the columns of `punch_event` ask of a new row. -/
structure Admits (db : Sources) (row : PunchEventRow) : Prop where
  fresh : row.id ∉ db.punchEvent.map PunchEventRow.id
  positive : 0 < row.id
  aligned : timestamptz row.effectiveAt = row.effectiveAt

instance (db : Sources) (row : PunchEventRow) : Decidable (db.Admits row) :=
  decidable_of_iff (row.id ∉ db.punchEvent.map PunchEventRow.id ∧ 0 < row.id ∧
      timestamptz row.effectiveAt = row.effectiveAt)
    ⟨fun held => ⟨held.1, held.2.1, held.2.2⟩, fun held => ⟨held.fresh, held.positive, held.aligned⟩⟩

theorem Admits.primaryKey {db : Sources} {row : PunchEventRow} (admitted : db.Admits row) :
    ((db.punchEvent ++ [row]).map PunchEventRow.id).Nodup := by
  rw [List.map_append]
  refine List.nodup_append.mpr ⟨db.primaryKey, List.nodup_singleton _, ?_⟩
  intro known listed other new same
  rw [List.map_cons, List.map_nil, List.mem_singleton] at new
  exact admitted.fresh (new ▸ same ▸ listed)

theorem forall_mem_concat {α : Type} {property : α → Prop} {items : List α} {item : α}
    (held : ∀ other ∈ items, property other) (new : property item) :
    ∀ other ∈ items ++ [item], property other :=
  List.forall_mem_append.mpr ⟨held, List.forall_mem_singleton.mpr new⟩

def ingest (db : Sources) (row : PunchEventRow) (admitted : db.Admits row) : Sources :=
  { db with
    punchEvent := db.punchEvent ++ [row]
    primaryKey := admitted.primaryKey
    bigserial := forall_mem_concat db.bigserial admitted.positive
    effectiveAt := forall_mem_concat db.effectiveAt admitted.aligned }

def amend (db : Sources) (row : PunchAmendmentRow)
    (aligned : ∀ amended ∈ row.newEffectiveAt, timestamptz amended = amended) : Sources :=
  { db with
    punchAmendment := db.punchAmendment ++ [row]
    newEffectiveAt := forall_mem_concat db.newEffectiveAt aligned }

theorem aligned_nil : ∀ row ∈ ([] : List PunchAmendmentRow), ∀ amended ∈ row.newEffectiveAt,
    timestamptz amended = amended :=
  fun _ member => absurd member List.not_mem_nil

def blank (organization : List OrganizationRow) (schedule : List ScheduleRow)
    (personSchedule : List PersonScheduleRow) : Sources where
  organization
  punchEvent := []
  punchAmendment := []
  schedule
  personSchedule
  primaryKey := List.nodup_nil
  bigserial := fun _ member => absurd member List.not_mem_nil
  effectiveAt := fun _ member => absurd member List.not_mem_nil
  newEffectiveAt := aligned_nil

end Sources

namespace Records

/-- An organisation's first day. -/
def initial (organization : List OrganizationRow) (schedule : List ScheduleRow)
    (personSchedule : List PersonScheduleRow) : Records :=
  ⟨.blank organization schedule personSchedule, .empty⟩

def step (loadLocation : String → Option Location) (records : Records) : Occurrence → Option Records
  | .ingest row =>
      if admitted : records.sources.Admits row then
        some { records with sources := records.sources.ingest row admitted }
      else none
  | .amend row =>
      -- the foreign key
      if row.punchEventId ∈ records.sources.punchEvent.map PunchEventRow.id then
        if aligned : ∀ amended ∈ row.newEffectiveAt, timestamptz amended = amended then
          some { records with sources := records.sources.amend row aligned }
        else none
      else none
  | .reschedule schedule personSchedule =>
      some { records with sources := { records.sources with schedule, personSchedule } }
  | .recompute request =>
      match recompute loadLocation records.tables (request.call records.sources) with
      | .error _ => some records
      | .ok (tables, _) => some { records with tables }

variable {loadLocation : String → Option Location} {records next : Records}

theorem step_ingest {row : PunchEventRow} (stepped : records.step loadLocation (.ingest row) = some next) :
    ∃ admitted : records.sources.Admits row,
      next = { records with sources := records.sources.ingest row admitted } := by
  simp only [step, Option.dite_none_right_eq_some, Option.some.injEq] at stepped
  obtain ⟨admitted, rfl⟩ := stepped
  exact ⟨admitted, rfl⟩

/-- A recompute that commits leaves the sources and rewrites its window. -/
theorem step_recompute {request : Request}
    (stepped : records.step loadLocation (.recompute request) = some next) :
    next = records ∨
      next.sources = records.sources ∧ ∃ org queried,
        (request.call records.sources).query loadLocation = .ok (org, queried) ∧
        Committed records.tables next.tables org queried (queried.window request.lower request.upper)
          request.orgId request.emittedAt := by
  simp only [step] at stepped
  split at stepped
  next =>
    cases stepped
    exact .inl rfl
  next tables result ran =>
    cases stepped
    obtain ⟨org, queried, queries, committed⟩ := recompute_committed ran
    exact .inr ⟨rfl, org, queried, queries, committed⟩

end Records

/-! ## The whole history -/

def recorded (org : Uuid) (row : PunchEventRow) : Bool :=
  decide (row.orgId = org ∧ row.status = .resolved ∧ row.personId.isSome)

/-- What `loadPunches` would return without a time range. -/
def Sources.history (db : Sources) (org : Uuid) : List (String × List Punch) :=
  groupBy Prod.fst Prod.snd
    (((db.punchEvent.filter (recorded org)).insertionSort
      (fun first second => first.effectiveAt ≤ second.effectiveAt)).filterMap (loadPunch db))

theorem exists_range (rows : List PunchEventRow) :
    ∃ low high, ∀ row ∈ rows, low ≤ row.effectiveAt ∧ row.effectiveAt < high := by
  induction rows with
  | nil => exact ⟨0, 0, fun _ member => absurd member List.not_mem_nil⟩
  | cons row rows ih =>
      obtain ⟨low, high, bounds⟩ := ih
      refine ⟨min low row.effectiveAt, max high (row.effectiveAt + 1), List.forall_mem_cons.mpr ⟨?_, ?_⟩⟩
      · omega
      · intro other listed
        have bound := bounds other listed
        omega

theorem Sources.loadPunches_eq_history {db : Sources} {org : Uuid} {low high : Int}
    (all : ∀ row ∈ db.punchEvent, low ≤ row.effectiveAt ∧ row.effectiveAt < high) :
    loadPunches db org low high = db.history org := by
  have same : db.punchEvent.filter (fetched org low high) = db.punchEvent.filter (recorded org) := by
    refine List.filter_congr fun row listed => ?_
    obtain ⟨early, late⟩ := all row listed
    simp [fetched, recorded, early, late]
  rw [loadPunches, loadedPunches, same]
  rfl

def Records.nairobi : Records := .initial [⟨sampleOrg, "Africa/Nairobi"⟩] [] []

/-- A recompute of one day, so many days after the sample day. -/
def sampleRequest (offset emittedAt : Int) : Request where
  orgId := "11111111-1111-1111-1111-111111111111"
  lower := sampleDay + offset * day + 12 * hour
  upper := sampleDay + offset * day + 12 * hour
  emittedAt
  newId := fun index => BitVec.ofNat 128 (emittedAt.toNat * 100 + index)

end Presence.Attendance
