import Presence.Firmware.PunchRecord
import Presence.Gateway.Model

namespace Presence.Firmware

open Presence.Gateway Presence.Go

/-! # The events batch on the wire

`buildEventsJson` seen through the gateway's decoder: the request the Go struct
holds after the body was built and unmarshalled, or nothing when `json.Unmarshal`
refuses a timestamp.  `civil` is the calendar arithmetic of `formatRfc3339Utc`,
`Civil.instant` what Go's parser makes of its text.
-/

structure BatchMeta where
  requestId : String
  deviceUptimeMs : UInt64
  bufferDepth : Nat

def toInt64 (value : UInt64) : Int := value.toBitVec.toInt

theorem toInt64_of_pos {seq : UInt64} (positive : 0 < toInt64 seq) :
    toInt64 seq = seq.toNat := by
  have split := BitVec.toInt_eq_toNat_cond seq.toBitVec
  have bound := seq.toBitVec.isLt
  simp only [toInt64] at *
  rw [split] at positive ⊢
  split at positive <;> simp_all
  omega

theorem toInt64_of_lt {value : UInt64} (small : value.toNat < 2 ^ 63) :
    toInt64 value = value.toNat :=
  BitVec.toInt_eq_toNat_of_lt (by rw [UInt64.toNat_toBitVec]; omega)

theorem toInt64_ofNat {value : Nat} (small : value < 2 ^ 63) :
    toInt64 (.ofNat value) = value := by
  have whole : (UInt64.ofNat value).toNat = value := Nat.mod_eq_of_lt (by omega)
  rw [toInt64_of_lt (by rwa [whole]), whole]

structure Civil where
  year : Int
  month : Int
  day : Int
  hour : Int
  minute : Int
  second : Int
  milli : Int
deriving DecidableEq, Repr

def civil (epochMs : Int) : Civil :=
  let epochMs := if epochMs < 0 then 0 else epochMs
  let days := epochMs.tdiv 86400000
  let msOfDay := epochMs.tmod 86400000
  let z := days + 719468
  let era := (if z ≥ 0 then z else z - 146096).tdiv 146097
  let doe := z - era * 146097
  let yoe := (doe - doe.tdiv 1460 + doe.tdiv 36524 - doe.tdiv 146096).tdiv 365
  let doy := doe - (365 * yoe + yoe.tdiv 4 - yoe.tdiv 100)
  let mp := (5 * doy + 2).tdiv 153
  let month := mp + if mp < 10 then 3 else -9
  let year := yoe + era * 400 + if month ≤ 2 then 1 else 0
  { year := if year < 0 then 0 else if year > 9999 then 9999 else year
    month
    day := doy - (153 * mp + 2).tdiv 5 + 1
    hour := msOfDay.tdiv 3600000
    minute := (msOfDay.tdiv 60000).tmod 60
    second := (msOfDay.tdiv 1000).tmod 60
    milli := msOfDay.tmod 1000 }

def isLeap (year : Int) : Bool := year % 4 == 0 && (year % 100 != 0 || year % 400 == 0)

def daysIn (year month : Int) : Int :=
  if month = 2 then (if isLeap year then 29 else 28)
  else if month = 4 ∨ month = 6 ∨ month = 9 ∨ month = 11 then 30
  else 31

def Civil.instant (civil : Civil) : Option Time :=
  if 1 ≤ civil.month ∧ civil.month ≤ 12 ∧ 1 ≤ civil.day ∧
      civil.day ≤ daysIn civil.year civil.month then
    let year := if civil.month ≤ 2 then civil.year - 1 else civil.year
    let month := if civil.month ≤ 2 then civil.month + 9 else civil.month - 3
    let dayOfYear := (153 * month + 2) / 5 + civil.day - 1
    let days := 365 * year + year / 4 - year / 100 + year / 400 + dayOfYear - 719468
    let seconds := ((days * 24 + civil.hour) * 60 + civil.minute) * 60 + civil.second
    some ⟨seconds * Go.second + civil.milli * millisecond, 0⟩
  else none

def hexChar (digit : Nat) : Char :=
  Char.ofNat (if digit < 10 then '0'.toNat + digit else 'a'.toNat + (digit - 10))

def formatUuid (uuid : Vector UInt8 16) : String :=
  String.ofList <| uuid.toList.zipIdx.flatMap fun (byte, index) =>
    let hyphen := if index = 4 ∨ index = 6 ∨ index = 8 ∨ index = 10 then ['-'] else []
    hyphen ++ [hexChar (byte.toNat / 16), hexChar (byte.toNat % 16)]

def credentialKindName (code : UInt8) : String :=
  match code with
  | 0 => "fingerprint"
  | 1 => "rfid_card"
  | 2 => "nfc_tag"
  | 3 => "pin"
  | 4 => "qr"
  | _ => "fingerprint"

def timeSourceName (code : UInt8) : String :=
  match code with
  | 0 => "rtc_synced"
  | 1 => "rtc_unsynced"
  | 2 => "uptime_only"
  | _ => "server_assigned"

def directionHintName (code : UInt8) : String :=
  match code with
  | 1 => "in"
  | 2 => "out"
  | _ => "unknown"

/-- `captured_at` is left out when there is no usable reading, and Go then
leaves the zero time. -/
def wireCapturedAt (capturedEpochMs : UInt64) : Option Time :=
  if 0 < capturedEpochMs then (civil (toInt64 capturedEpochMs)).instant
  else some ⟨zeroInstant, 0⟩

def wireEvent (record : PunchRecord) : Option PunchEvent := do
  let capturedAt ← wireCapturedAt record.capturedEpochMs
  return {
    seq := toInt64 record.seq
    eventUuid := formatUuid record.uuid
    capturedAt
    capturedUptimeMs := toInt64 record.capturedUptimeMs
    timeSource := timeSourceName record.timeSource
    credentialKind := credentialKindName record.credentialKind
    slotNo := if 0 < record.slotNo then some record.slotNo.toNat else none
    credentialRef := ""
    matchScore := if 0 < record.matchScore then some record.matchScore.toNat else none
    directionHint := directionHintName record.directionHint
    deviceMode := "" }

def wireRequest (batch : List PunchRecord) (envelope : BatchMeta) : Option EventsRequest := do
  let events ← batch.mapM wireEvent
  return {
    requestId := envelope.requestId
    deviceUptimeMs := toInt64 envelope.deviceUptimeMs
    bufferDepth := envelope.bufferDepth
    events }

example : (civil 1709210096789).instant = some ⟨1709210096789 * millisecond, 0⟩ := by decide

theorem wireEvent_seq {record : PunchRecord} {ev : PunchEvent}
    (decoded : wireEvent record = some ev) : ev.seq = toInt64 record.seq := by
  simp only [wireEvent, Option.bind_eq_bind, Option.bind_eq_some_iff] at decoded
  obtain ⟨capturedAt, _, returned⟩ := decoded
  cases returned
  rfl

private theorem mapM_seq {batch : List PunchRecord} {events : List PunchEvent}
    (decoded : batch.mapM wireEvent = some events) :
    events.map PunchEvent.seq = batch.map fun record => toInt64 record.seq := by
  induction batch generalizing events with
  | nil =>
      cases decoded
      rfl
  | cons record batch ih =>
      rw [List.mapM_cons] at decoded
      simp only [Option.bind_eq_bind, Option.bind_eq_some_iff] at decoded
      obtain ⟨ev, first, rest, remaining, returned⟩ := decoded
      cases returned
      simp [wireEvent_seq first, ih remaining]

/-- The sequence numbers cross the wire in order, read as `int64`. -/
theorem wireRequest_seqs {batch : List PunchRecord} {envelope : BatchMeta}
    {request : EventsRequest} (decoded : wireRequest batch envelope = some request) :
    request.events.map PunchEvent.seq = batch.map fun record => toInt64 record.seq := by
  simp only [wireRequest, Option.bind_eq_bind, Option.bind_eq_some_iff] at decoded
  obtain ⟨events, mapped, returned⟩ := decoded
  cases returned
  exact mapM_seq mapped

end Presence.Firmware
