import Mathlib.Data.List.AList
import Presence.Data.Except
import Presence.Gateway.Model
import Presence.Gateway.Schema
import Presence.Go.Base64

namespace Presence.Gateway

open Presence.Data Presence.Go Presence.Postgres

/-! # `store.IngestBatch`

The whole of one call runs in a transaction, so an error of any statement is an
error of the call and leaves the database as it was.  A query with `LIMIT 1` and
no total order takes the first matching row of the table.
-/

structure Device where
  id : Uuid
  orgId : Uuid
  mode : DeviceMode
  secrets : AList fun _ : Int => List UInt8
  lastAckSeq : Int

/-- `sort.Slice` by sequence number.  It promises a sorted permutation and
nothing about equal elements. -/
structure SortSlice where
  sort : List PunchEvent → List PunchEvent
  perm : ∀ events, (sort events).Perm events
  sorted : ∀ events, (sort events).Pairwise fun first second => first.seq ≤ second.seq

def effectiveTime (ev : PunchEvent) (deviceUptimeMs : Int) (receivedAt : Time) :
    Time × TimeConfidence :=
  match ev.timeSource with
  | "rtc_synced" => (ev.capturedAt, .high)
  | "rtc_unsynced" => (ev.capturedAt, .medium)
  | "uptime_only" =>
      if 0 < deviceUptimeMs ∧ 0 < ev.capturedUptimeMs ∧ ev.capturedUptimeMs ≤ deviceUptimeMs then
        let back := wrap64 ((deviceUptimeMs - ev.capturedUptimeMs) * millisecond)
        ({ receivedAt with instant := receivedAt.instant + wrap64 (-back) }, .low)
      else (receivedAt, .low)
  | _ => (receivedAt, .low)

/-! ## Who made the punch -/

structure Resolution where
  status : EventStatus
  reason : String
  personId : Option Uuid
  credentialId : Option Uuid
deriving DecidableEq, Repr

def Resolution.refused (reason : String) : Resolution := ⟨.unresolved, reason, none, none⟩

def PersonRow.inactive (person : PersonRow) (date : Int) : Bool :=
  person.activeTo.any (· < date)

/-- The slot binding in force at an instant, joined to its credential and person. -/
def Database.slotBinding (db : Database) (device : Uuid) (slotNo instant : Int) :
    Option (CredentialRow × PersonRow) :=
  db.deviceSlot.findSome? fun slot =>
    if slot.deviceId = device ∧ slot.slotNo = slotNo ∧ slot.validFrom ≤ instant ∧
        slot.validTo.all (instant < ·) then do
      let credential ← db.credential.find? (·.id == slot.credentialId)
      let person ← db.person.find? (·.id == slot.personId)
      return (credential, person)
    else none

def Database.heldCredential (db : Database) (org : Uuid) (hash : List UInt8) :
    Option (CredentialRow × PersonRow) :=
  db.credential.findSome? fun credential =>
    if credential.orgId = org ∧ credential.secretHash = some hash ∧ credential.revokedAt = none then do
      let person ← db.person.find? (·.id == credential.personId)
      return (credential, person)
    else none

def resolve (db : Database) (dev : Device) (ev : PunchEvent) (effective : Time) :
    Except Error Resolution :=
  if ev.credentialKind = "fingerprint" then
    match ev.slotNo with
    | none => .ok (.refused reasonMalformed)
    | some slotNo =>
        if fitsInt4 slotNo then
          match db.slotBinding dev.id slotNo (timestamptz effective.instant) with
          | none => .ok (.refused reasonUnknownSlot)
          | some (credential, person) =>
              -- a revoked or departed holder keeps the link for the audit trail
              if credential.revokedAt.isSome then
                .ok ⟨.unresolved, reasonCredentialRevoked, some person.id, some credential.id⟩
              else if person.inactive effective.date then
                .ok ⟨.unresolved, reasonPersonInactive, some person.id, some credential.id⟩
              else .ok ⟨.resolved, "", some person.id, some credential.id⟩
        else .error (.outOfRange "slot_no")
  else if ev.credentialRef = "" then .ok (.refused reasonMalformed)
  else
    match decodeBase64 ev.credentialRef with
    | none => .ok (.refused reasonMalformed)
    | some hash =>
        match db.heldCredential dev.orgId hash with
        | none => .ok (.refused reasonUnknownSlot)
        | some (credential, person) =>
            if person.inactive effective.date then
              .ok ⟨.unresolved, reasonPersonInactive, some person.id, some credential.id⟩
            else .ok ⟨.resolved, "", some person.id, some credential.id⟩

/-! ## Which way -/

def latestResolved (rows : List PunchEventRow) (person : Uuid) (before : Int) :
    Option PunchEventRow :=
  rows.foldl (fun latest row =>
    if row.personId = some person ∧ row.effectiveAt < before ∧ row.status = .resolved then
      match latest with
      | none => some row
      | some found => if found.effectiveAt < row.effectiveAt then some row else latest
    else latest) none

def deriveDirection (db : Database) (dev : Device) (person : Uuid) (effective : Time) :
    PunchDirection :=
  match dev.mode with
  | .entry => .in
  | .exit => .out
  | .bidirectional =>
      match latestResolved db.punchEvent person (timestamptz effective.instant) with
      | none => .in
      | some last => if last.direction = .in then .out else .in

/-! ## The insert -/

/-- The parameters of the insert that come from the event, read into their columns. -/
structure EventColumns where
  eventUuid : Uuid
  credentialKind : CredentialKind
  slotNo : Option Int
  credentialRef : Option String
  matchScore : Option Int
  srcTime : TimeSource
  directionHint : PunchDirection
  rawDeviceMode : String

def cast (error : Error) : Option α → Except Error α
  | none => .error error
  | some value => .ok value

def check (error : Error) (accepted : Bool) (value : α) : Except Error α :=
  if accepted then .ok value else .error error

def nullIfEmpty (text : String) : Option String := if text = "" then none else some text

def nullIfZero (value : Int) : Option Int := if value = 0 then none else some value

def PunchEvent.hint (ev : PunchEvent) : String :=
  if ev.directionHint = "" then "unknown" else ev.directionHint

def eventColumns (ev : PunchEvent) : Except Error EventColumns := do
  let eventUuid ← cast (.invalidUuid "event_uuid") (uuidIn ev.eventUuid)
  let credentialKind ← cast (.invalidEnum "credential_kind") (CredentialKind.ofText ev.credentialKind)
  let slotNo ← check (.outOfRange "slot_no") (ev.slotNo.all fitsInt4) ev.slotNo
  let credentialRef ← check (.invalidText "credential_ref") (validText ev.credentialRef)
    (nullIfEmpty ev.credentialRef)
  let matchScore ← check (.outOfRange "match_score") (ev.matchScore.all fitsInt2) ev.matchScore
  let srcTime ← cast (.invalidEnum "src_time") (TimeSource.ofText ev.timeSource)
  let directionHint ← cast (.invalidEnum "direction_hint") (PunchDirection.ofText ev.hint)
  let rawDeviceMode ← check (.invalidText "raw") (validText ev.deviceMode) ev.deviceMode
  return {
    eventUuid, credentialKind, slotNo, credentialRef, matchScore, srcTime, directionHint,
    rawDeviceMode }

/-- What the switch of the ingest loop decides about one event. -/
structure Judgement where
  resolution : Resolution
  effective : Time
  conf : TimeConfidence

def judge (db : Database) (dev : Device) (deviceUptimeMs : Int) (now : Time) (ev : PunchEvent) :
    Except Error Judgement :=
  let (effective, conf) := effectiveTime ev deviceUptimeMs now
  if ev.seq ≤ 0 ∨ ev.eventUuid = "" then .ok ⟨.refused reasonMalformed, effective, conf⟩
  else if now.instant + 5 * minute < effective.instant then
    .ok ⟨.refused reasonFutureTimestamp, now, .low⟩
  else do
    let resolution ← resolve db dev ev effective
    return ⟨resolution, effective, conf⟩

def Judgement.direction (judgement : Judgement) (db : Database) (dev : Device) : PunchDirection :=
  match judgement.resolution.status, judgement.resolution.personId with
  | .resolved, some person => deriveDirection db dev person judgement.effective
  | _, _ => .unknown

def newRow (db : Database) (dev : Device) (ev : PunchEvent) (now : Time) (judgement : Judgement)
    (columns : EventColumns) : PunchEventRow :=
  let captured :=
    if ev.capturedAt.instant = zeroInstant then judgement.effective else ev.capturedAt
  { id := db.nextEventId
    orgId := dev.orgId
    deviceId := dev.id
    deviceSeq := ev.seq
    eventUuid := columns.eventUuid
    credentialKind := columns.credentialKind
    slotNo := columns.slotNo
    credentialRef := columns.credentialRef
    matchScore := columns.matchScore
    status := judgement.resolution.status
    personId := judgement.resolution.personId
    credentialId := judgement.resolution.credentialId
    unresolvedReason := nullIfEmpty judgement.resolution.reason
    capturedAt := timestamptz captured.instant
    capturedUptimeMs := nullIfZero ev.capturedUptimeMs
    receivedAt := timestamptz now.instant
    effectiveAt := timestamptz judgement.effective.instant
    srcTime := columns.srcTime
    timeConf := judgement.conf
    clockSkewMs := milliseconds (sub now.instant captured.instant)
    isBackfilled := decide (2 * minute < sub now.instant judgement.effective.instant)
    directionHint := columns.directionHint
    direction := judgement.direction db dev
    rawDeviceMode := columns.rawDeviceMode }

/-- `insertEvent`.  The check constraints come before the conflict test, which
looks at `punch_event_idem_idx` only; a new row must still be unique on
`event_uuid`.  The id sequence advances whether or not the row is kept. -/
def insertEvent (db : Database) (dev : Device) (ev : PunchEvent) (now : Time)
    (judgement : Judgement) : Except Error (Database × Bool) := do
  let columns ← eventColumns ev
  let row := newRow db dev ev now judgement columns
  let db := { db with nextEventId := db.nextEventId + 1 }
  if row.deviceSeq ≤ 0 then .error (.checkViolation "punch_event_seq_positive")
  else if row.status = .resolved ∧ row.personId = none then
    .error (.checkViolation "punch_event_resolved_has_person")
  else if db.hasEvent row.deviceId row.deviceSeq then .ok (db, false)
  else if db.hasEventUuid row.eventUuid then .error (.uniqueViolation "punch_event_uuid_idx")
  else .ok ({ db with punchEvent := db.punchEvent ++ [row] }, true)

/-! ## The batch -/

inductive Verdict where
  | accepted
  | duplicate
  | rejected (reason : String)
deriving DecidableEq, Repr

def ingestEvent (dev : Device) (deviceUptimeMs : Int) (now : Time) (db : Database)
    (ev : PunchEvent) : Except Error (Database × Verdict) := do
  let judgement ← judge db dev deviceUptimeMs now ev
  let (db, inserted) ← insertEvent db dev ev now judgement
  if !inserted then return (db, .duplicate)
  else if judgement.resolution.status = .resolved then return (db, .accepted)
  else return (db, .rejected judgement.resolution.reason)

def ingestEvents (dev : Device) (deviceUptimeMs : Int) (now : Time) :
    Database → List PunchEvent → Except Error (Database × List (Int × Verdict))
  | db, [] => .ok (db, [])
  | db, ev :: rest => do
      let (db, verdict) ← ingestEvent dev deviceUptimeMs now db ev
      let (db, verdicts) ← ingestEvents dev deviceUptimeMs now db rest
      return (db, (ev.seq, verdict) :: verdicts)

/-- The ack loop: it stops at the first sequence number that was not stored. -/
def ackLoop (stored : List Int) : Int → List PunchEvent → Int
  | ack, [] => ack
  | ack, ev :: rest =>
      if ev.seq ∈ stored then ackLoop stored (if ev.seq > ack then ev.seq else ack) rest else ack

def batchResponse (now : Time) (ack : Int) (verdicts : List (Int × Verdict)) : EventsResponse where
  ackThrough := ack
  accepted := verdicts.filterMap fun
    | (seq, .accepted) => some seq
    | _ => none
  duplicates := verdicts.filterMap fun
    | (seq, .duplicate) => some seq
    | _ => none
  rejected := verdicts.filterMap fun
    | (seq, .rejected reason) => some ⟨seq, reason⟩
    | _ => none
  serverTimeMs := now.instant / millisecond

/-- The parameter `NULLIF($7,'')::uuid`. -/
def requestUuid (requestId : String) : Except Error (Option Uuid) :=
  if requestId = "" then .ok none
  else (cast (.invalidUuid "request_id") (uuidIn requestId)).map some

def insertSyncBatch (db : Database) (dev : Device) (requestId : String) (events : List PunchEvent)
    (response : EventsResponse) : Except Error Database :=
  match events.head?, events.getLast? with
  | some first, some last => do
      let requestId ← requestUuid requestId
      return { db with
        syncBatch := db.syncBatch ++ [{
          deviceId := dev.id
          seqStart := first.seq
          seqEnd := last.seq
          accepted := response.accepted.length
          duplicates := response.duplicates.length
          rejected := response.rejected.length
          requestId }] }
  | _, _ => .ok db

/-- `UPDATE device`: the ack only ever grows. -/
def updateDevice (db : Database) (dev : Device) (ack bufferDepth : Int) : Except Error Database :=
  check (.outOfRange "last_buffer_depth") (fitsInt4 bufferDepth)
    { db with
      device := db.device.map fun row =>
        if row.id = dev.id then
          { row with lastAckSeq := max row.lastAckSeq ack, lastBufferDepth := some bufferDepth }
        else row }

def ingestBatch (sortSlice : SortSlice) (db : Database) (dev : Device) (req : EventsRequest)
    (now : Time) : Except Error (Database × EventsResponse) := do
  let events := sortSlice.sort req.events
  let (db, verdicts) ← ingestEvents dev req.deviceUptimeMs now db events
  let ack := ackLoop (verdicts.map (·.1)) dev.lastAckSeq events
  let response := batchResponse now ack verdicts
  let db ← insertSyncBatch db dev req.requestId events response
  let db ← updateDevice db dev ack req.bufferDepth
  return (db, response)

end Presence.Gateway
