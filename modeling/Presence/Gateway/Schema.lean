import Presence.Go.Time
import Presence.Postgres.Types

namespace Presence.Gateway

open Presence.Go Presence.Postgres

/-! # The tables of `001_schema.sql` that ingest reads and writes

A table is the list of its rows in insertion order.  Columns that no modelled
statement reads or writes are left out, and so are the foreign keys: every id
written is copied from a row read in the same transaction.
-/

inductive CredentialKind where
  | fingerprint | rfidCard | nfcTag | pin | qr
deriving DecidableEq, Repr

inductive PunchDirection where
  | in | out | unknown
deriving DecidableEq, Repr

inductive TimeSource where
  | rtcSynced | rtcUnsynced | uptimeOnly | serverAssigned
deriving DecidableEq, Repr

inductive TimeConfidence where
  | high | medium | low
deriving DecidableEq, Repr

inductive EventStatus where
  | resolved | unresolved | quarantined
deriving DecidableEq, Repr

inductive DeviceMode where
  | entry | exit | bidirectional
deriving DecidableEq, Repr

inductive DeviceState where
  | provisioning | active | suspended | retired
deriving DecidableEq, Repr

/-! The enum input functions: exactly the declared labels. -/

def CredentialKind.ofText : String → Option CredentialKind
  | "fingerprint" => some .fingerprint
  | "rfid_card" => some .rfidCard
  | "nfc_tag" => some .nfcTag
  | "pin" => some .pin
  | "qr" => some .qr
  | _ => none

def PunchDirection.ofText : String → Option PunchDirection
  | "in" => some .in
  | "out" => some .out
  | "unknown" => some .unknown
  | _ => none

def TimeSource.ofText : String → Option TimeSource
  | "rtc_synced" => some .rtcSynced
  | "rtc_unsynced" => some .rtcUnsynced
  | "uptime_only" => some .uptimeOnly
  | "server_assigned" => some .serverAssigned
  | _ => none

structure DeviceRow where
  id : Uuid
  orgId : Uuid
  mode : DeviceMode
  state : DeviceState
  keyVersion : Int
  secretEnc : Option (List UInt8)
  secretNonce : Option (List UInt8)
  secretKeyId : Option String
  prevKeyVersion : Option Int
  prevSecretEnc : Option (List UInt8)
  prevSecretNonce : Option (List UInt8)
  prevSecretKeyId : Option String
  lastAckSeq : Int
  lastBufferDepth : Option Int
deriving DecidableEq, Repr

structure PersonRow where
  id : Uuid
  activeTo : Option Int
deriving DecidableEq, Repr

structure CredentialRow where
  id : Uuid
  orgId : Uuid
  personId : Uuid
  secretHash : Option (List UInt8)
  revokedAt : Option Int
deriving DecidableEq, Repr

structure DeviceSlotRow where
  deviceId : Uuid
  slotNo : Int
  credentialId : Uuid
  personId : Uuid
  validFrom : Int
  validTo : Option Int
deriving DecidableEq, Repr

structure PunchEventRow where
  id : Nat
  orgId : Uuid
  deviceId : Uuid
  deviceSeq : Int
  eventUuid : Uuid
  credentialKind : CredentialKind
  slotNo : Option Int
  credentialRef : Option String
  matchScore : Option Int
  status : EventStatus
  personId : Option Uuid
  credentialId : Option Uuid
  unresolvedReason : Option String
  capturedAt : Int
  capturedUptimeMs : Option Int
  receivedAt : Int
  effectiveAt : Int
  srcTime : TimeSource
  timeConf : TimeConfidence
  clockSkewMs : Int
  isBackfilled : Bool
  directionHint : PunchDirection
  direction : PunchDirection
  rawDeviceMode : String
deriving DecidableEq, Repr

/-- The columns of `punch_event_idem_idx`. -/
def PunchEventRow.key (row : PunchEventRow) : Uuid × Int := (row.deviceId, row.deviceSeq)

structure SyncBatchRow where
  deviceId : Uuid
  seqStart : Int
  seqEnd : Int
  accepted : Nat
  duplicates : Nat
  rejected : Nat
  requestId : Option Uuid
deriving DecidableEq, Repr

structure Database where
  device : List DeviceRow
  person : List PersonRow
  credential : List CredentialRow
  deviceSlot : List DeviceSlotRow
  punchEvent : List PunchEventRow
  syncBatch : List SyncBatchRow
  /-- The next value of the `punch_event.id` sequence. -/
  nextEventId : Nat

namespace Database

variable {db : Database} {device : Uuid} {seq : Int}

def hasEvent (db : Database) (device : Uuid) (seq : Int) : Bool :=
  db.punchEvent.any fun row => row.key == (device, seq)

def hasEventUuid (db : Database) (uuid : Uuid) : Bool :=
  db.punchEvent.any fun row => row.eventUuid == uuid

def keys (db : Database) : List (Uuid × Int) := db.punchEvent.map PunchEventRow.key

def uuids (db : Database) : List Uuid := db.punchEvent.map PunchEventRow.eventUuid

theorem hasEvent_iff : db.hasEvent device seq = true ↔ (device, seq) ∈ db.keys := by
  simp [hasEvent, keys]

theorem hasEventUuid_iff {uuid : Uuid} : db.hasEventUuid uuid = true ↔ uuid ∈ db.uuids := by
  simp [hasEventUuid, uuids]

/-- The two unique indexes of `punch_event`. -/
structure WellFormed (db : Database) : Prop where
  keys : db.keys.Nodup
  uuids : db.uuids.Nodup

end Database

end Presence.Gateway
