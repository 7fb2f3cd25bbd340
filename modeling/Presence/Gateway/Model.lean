import Presence.Go.Time

namespace Presence.Gateway

open Presence.Go

/-! # The wire types of `model.go`

A request is the value `json.Unmarshal` leaves in the Go struct: the named
string types hold any string, a missing time is the zero time, a missing number
is zero and a missing pointer is nil.
-/

structure PunchEvent where
  seq : Int
  eventUuid : String
  capturedAt : Time
  capturedUptimeMs : Int
  timeSource : String
  credentialKind : String
  slotNo : Option Int
  credentialRef : String
  matchScore : Option Int
  directionHint : String
  deviceMode : String
deriving DecidableEq, Repr

structure EventsRequest where
  requestId : String
  deviceUptimeMs : Int
  bufferDepth : Int
  events : List PunchEvent
deriving DecidableEq, Repr

structure Rejection where
  seq : Int
  reason : String
deriving DecidableEq, Repr

structure EventsResponse where
  ackThrough : Int
  accepted : List Int
  duplicates : List Int
  rejected : List Rejection
  serverTimeMs : Int
deriving DecidableEq, Repr

def reasonUnknownSlot : String := "unknown_slot"

def reasonCredentialRevoked : String := "credential_revoked"

def reasonPersonInactive : String := "person_inactive"

def reasonMalformed : String := "malformed"

def reasonFutureTimestamp : String := "future_timestamp"

end Presence.Gateway
