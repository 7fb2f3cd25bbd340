import Presence.Data.Json
import Presence.Firmware.EventsJson
import Presence.Go.Strconv

namespace Presence.Gateway

open Presence.Data Presence.Firmware Presence.Go

/-! # `json.Unmarshal` into an `EventsRequest`

By the names in the field tags.  A missing name and a `null` leave the zero value; a
value of another kind, a number that is no `int64` and a string that is no RFC 3339
time are errors.  Go also takes a name that differs from the tag in case only.
-/

/-! ## Times

`time.Time.UnmarshalJSON`: two digits for everything but the year, an optional
fraction of which nine digits count, and a zone.
-/

def parseUint (low high : Int) (digits : List Char) : Option Int := do
  let value ← decimal 0 digits
  if low ≤ value ∧ value ≤ high then some (value : Int) else none

/-- The fraction of a second in nanoseconds, and what follows it. -/
def parseFraction (text : List Char) : Option (Int × List Char) :=
  match text with
  | '.' :: rest =>
      match rest.span Char.isDigit with
      | ([], _) => some (0, text)
      | (digits, rest) => do
          let kept := digits.take 9
          let value ← decimal 0 kept
          return ((value * 10 ^ (9 - kept.length) : Nat), rest)
  | _ => some (0, text)

/-- The offset of a zone. -/
def parseZone : List Char → Option Int
  | ['Z'] => some 0
  | [sign, h1, h2, ':', m1, m2] => do
      let hours ← parseUint 0 23 [h1, h2]
      let minutes ← parseUint 0 59 [m1, m2]
      let offset := hours * hour + minutes * minute
      if sign = '+' then some offset else if sign = '-' then some (-offset) else none
  | _ => none

def parseRfc3339 : List Char → Option Time
  | y1 :: y2 :: y3 :: y4 :: s1 :: m1 :: m2 :: s2 :: d1 :: d2 :: s3 :: h1 :: h2 :: s4 :: n1 :: n2 ::
      s5 :: c1 :: c2 :: rest =>
      if s1 = '-' ∧ s2 = '-' ∧ s3 = 'T' ∧ s4 = ':' ∧ s5 = ':' then do
        let year ← parseUint 0 9999 [y1, y2, y3, y4]
        let month ← parseUint 1 12 [m1, m2]
        let day ← parseUint 1 (daysIn year month) [d1, d2]
        let hour ← parseUint 0 23 [h1, h2]
        let minute ← parseUint 0 59 [n1, n2]
        let second ← parseUint 0 59 [c1, c2]
        let (nanoseconds, rest) ← parseFraction rest
        let offset ← parseZone rest
        let whole ← (Civil.mk year month day hour minute second 0).instant
        return ⟨whole.instant + nanoseconds - offset, offset⟩
      else none
  | _ => none

example : parseRfc3339 "2024-02-29T12:34:56.789Z".toList = some ⟨1709210096789 * millisecond, 0⟩ ∧
    parseRfc3339 "2024-02-29T14:34:56+02:00".toList = some ⟨1709210096 * second, 2 * hour⟩ ∧
    parseRfc3339 "2023-02-29T12:34:56Z".toList = none := by decide

/-! ## Fields -/

def int64Field : Option Json → Option Int
  | none | some .null => some 0
  | some (.number literal) => parseInt (String.ofList literal)
  | some _ => none

def intPointer : Option Json → Option (Option Int)
  | none | some .null => some none
  | some (.number literal) => (parseInt (String.ofList literal)).map some
  | some _ => none

def stringField : Option Json → Option String
  | none | some .null => some ""
  | some (.string text) => some (String.ofList text)
  | some _ => none

def timeField : Option Json → Option Time
  | none | some .null => some ⟨zeroInstant, 0⟩
  | some (.string text) => parseRfc3339 text
  | some _ => none

def structOf : Json → Option Json
  | .null => some (.object [])
  | .object members => some (.object members)
  | _ => none

def decodeEvent (json : Json) : Option PunchEvent := do
  let json ← structOf json
  let field (name : String) := json.member name.toList
  return {
    seq := ← int64Field (field "seq")
    eventUuid := ← stringField (field "event_uuid")
    capturedAt := ← timeField (field "captured_at")
    capturedUptimeMs := ← int64Field (field "captured_uptime_ms")
    timeSource := ← stringField (field "time_source")
    credentialKind := ← stringField (field "credential_kind")
    slotNo := ← intPointer (field "slot_no")
    credentialRef := ← stringField (field "credential_ref")
    matchScore := ← intPointer (field "match_score")
    directionHint := ← stringField (field "direction_hint")
    deviceMode := ← stringField (field "device_mode") }

def decodeEvents : Option Json → Option (List PunchEvent)
  | none | some .null => some []
  | some (.array elements) => elements.mapM decodeEvent
  | some _ => none

def decodeRequest (json : Json) : Option EventsRequest := do
  let json ← structOf json
  let field (name : String) := json.member name.toList
  return {
    requestId := ← stringField (field "request_id")
    deviceUptimeMs := ← int64Field (field "device_uptime_ms")
    bufferDepth := ← int64Field (field "buffer_depth")
    events := ← decodeEvents (field "events") }

end Presence.Gateway
