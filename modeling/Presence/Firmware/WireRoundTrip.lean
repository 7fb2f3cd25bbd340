import Presence.Data.Except
import Presence.Firmware.WireText
import Presence.Gateway.Schema

namespace Presence.Firmware

open Presence.Data Presence.Gateway Presence.Go Presence.Postgres

/-! # Batches survive the wire

The text of a batch is put together from the texts of its values, and the gateway
reads the values back by their names.
-/

/-- A record whose numbers are `int64` and whose timestamp has a four-digit year. -/
structure PunchRecord.Sendable (record : PunchRecord) : Prop where
  seq : record.seq.toNat < 2 ^ 63
  capturedUptimeMs : record.capturedUptimeMs.toNat < 2 ^ 63
  capturedEpochMs : record.capturedEpochMs.toNat < year10000Ms

/-! ## Members -/

def stringMember (key : String) (text : List Char) : Json.Member :=
  ⟨key.toList, .string text, '"' :: (text ++ ['"'])⟩

def numberMember (key : String) (number : Nat) : Json.Member :=
  ⟨key.toList, .number (Json.numerals.text number), Json.numerals.text number⟩

theorem reads_stringMember {key : String} {text : List Char} (plainKey : Json.Plain key.toList)
    (plain : Json.Plain text) : (stringMember key text).Reads :=
  ⟨plainKey, Json.reads_string plain⟩

theorem reads_numberMember {key : String} (plainKey : Json.Plain key.toList) (number : Nat) :
    (numberMember key number).Reads :=
  ⟨plainKey, Json.reads_number number⟩

/-- What comes after the sequence number. -/
def laterMembers (record : PunchRecord) : List Json.Member :=
  stringMember "event_uuid" (hyphenated record.uuid.toList) ::
    (if record.capturedEpochMs > 0 then
      [stringMember "captured_at" (formatRfc3339Utc record.capturedEpochMs.toNat)]
    else []) ++
    (if record.capturedUptimeMs > 0 then
      [numberMember "captured_uptime_ms" record.capturedUptimeMs.toNat]
    else []) ++
    [stringMember "time_source" (timeSourceName record.timeSource).toList,
      stringMember "credential_kind" (credentialKindName record.credentialKind).toList] ++
    (if record.slotNo > 0 then [numberMember "slot_no" record.slotNo.toNat] else []) ++
    (if record.matchScore > 0 then [numberMember "match_score" record.matchScore.toNat] else []) ++
    [stringMember "direction_hint" (directionHintName record.directionHint).toList]

def eventMembers (record : PunchRecord) : List Json.Member :=
  numberMember "seq" record.seq.toNat :: laterMembers record

def eventJson (record : PunchRecord) : Json :=
  .object ((eventMembers record).map fun entry => (entry.key, entry.value))

variable {record : PunchRecord}

/-- The texts of members that follow another one. -/
def following (members : List Json.Member) : List Char :=
  Json.commaBefore (members.map Json.Member.written)

theorem following_nil : following [] = [] := rfl

theorem following_cons (member : Json.Member) (others : List Json.Member) :
    following (member :: others) = ',' :: (member.written ++ following others) := rfl

theorem following_append (first second : List Json.Member) :
    following (first ++ second) = following first ++ following second := by
  simp only [following, Json.commaBefore, List.map_append, List.flatMap_append]

theorem following_ite (given : Prop) [Decidable given] (member : Json.Member) :
    following (if given then [member] else []) = if given then ',' :: member.written else [] := by
  split
  · rw [following_cons]
    simp only [following, List.map_nil, Json.commaBefore, List.flatMap_nil, List.append_nil]
  · rfl

/-! The literals of the source hold the comma, the name and the quotes around it. -/

theorem string_piece {literal key : String}
    (spelled : literal.toList = ',' :: '"' :: (key.toList ++ ['"', ':', '"'])) (text rest : List Char) :
    literal.toList ++ (text ++ ('"' :: rest)) = ',' :: ((stringMember key text).written ++ rest) := by
  rw [spelled]
  simp only [stringMember, Json.Member.written, List.cons_append, List.append_assoc, List.nil_append]

theorem number_piece {literal key : String}
    (spelled : literal.toList = ',' :: '"' :: (key.toList ++ ['"', ':'])) (number : Nat) :
    literal.toList ++ Json.numerals.text number = ',' :: (numberMember key number).written := by
  rw [spelled]
  simp only [numberMember, Json.Member.written, List.cons_append, List.append_assoc, List.nil_append]

theorem eventText_eq (sendable : record.Sendable) :
    eventText record = '{' :: (Json.joined ((eventMembers record).map Json.Member.written) ++ ['}']) := by
  have slot : record.slotNo.toNat < 2 ^ 63 := Nat.lt_trans record.slotNo.toNat_lt (by decide)
  have score : record.matchScore.toNat < 2 ^ 63 := Nat.lt_trans record.matchScore.toNat_lt (by decide)
  have epoch : record.capturedEpochMs.toNat < 2 ^ 63 := by
    have bound := sendable.capturedEpochMs
    simp only [year10000Ms] at bound
    omega
  have joined : Json.joined ((eventMembers record).map Json.Member.written) =
      (numberMember "seq" record.seq.toNat).written ++ following (laterMembers record) := rfl
  have uuidText : (formatUuid record.uuid).toList = hyphenated record.uuid.toList := by
    rw [formatUuid_eq, String.toList_ofList]
  have seq : "\x7b\"seq\":".toList = '{' :: '"' :: ("seq".toList ++ ['"', ':']) := rfl
  have quote : "\",\"credential_kind\":\"".toList = '"' :: ",\"credential_kind\":\"".toList := rfl
  have close : "\"\x7d".toList = ['"', '}'] := rfl
  have uuid := @string_piece ",\"event_uuid\":\"" "event_uuid" rfl
  have captured := @string_piece ",\"captured_at\":\"" "captured_at" rfl
  have uptime := @number_piece ",\"captured_uptime_ms\":" "captured_uptime_ms" rfl
  have source := @string_piece ",\"time_source\":\"" "time_source" rfl
  have kind := @string_piece ",\"credential_kind\":\"" "credential_kind" rfl
  have slotNo := @number_piece ",\"slot_no\":" "slot_no" rfl
  have matchScore := @number_piece ",\"match_score\":" "match_score" rfl
  have hint := @string_piece ",\"direction_hint\":\"" "direction_hint" rfl
  rewrite [joined]
  unfold eventText laterMembers
  rewrite [toInt64_of_lt sendable.seq, toInt64_of_lt sendable.capturedUptimeMs,
    toInt64_of_lt epoch, chars_jsonInt sendable.seq, chars_jsonInt sendable.capturedUptimeMs,
    chars_jsonInt slot, chars_jsonInt score, uuidText, seq, quote, close, uptime, slotNo, matchScore]
  simp only [following_append, following_cons, following_ite, List.append_assoc, List.cons_append,
    List.nil_append, uuid, captured, source, kind, hint]
  simp only [numberMember, stringMember, Json.Member.written, following_nil, List.append_assoc,
    List.cons_append, List.nil_append, List.append_nil]

theorem eventMembers_read (sendable : record.Sendable) :
    ∀ entry ∈ eventMembers record, entry.Reads := by
  have optional {given : Prop} [Decidable given] {member : Json.Member} (reads : member.Reads) :
      ∀ entry ∈ if given then [member] else [], entry.Reads := by
    intro entry inside
    split at inside
    · exact List.mem_singleton.mp inside ▸ reads
    · cases inside
  have captured := plain_formatRfc3339Utc (Int.natCast_nonneg record.capturedEpochMs.toNat)
    (by exact_mod_cast sendable.capturedEpochMs)
  simp only [eventMembers, laterMembers, List.cons_append, List.forall_mem_cons,
    List.forall_mem_append, List.not_mem_nil]
  exact ⟨reads_numberMember (by decide) _,
    reads_stringMember (by decide) (plain_hyphenated _),
    ⟨⟨⟨⟨optional (reads_stringMember (by decide) captured),
    optional (reads_numberMember (by decide) _)⟩,
    reads_stringMember (by decide) (plain_timeSourceName _),
    reads_stringMember (by decide) (plain_credentialKindName _), by simp⟩,
    optional (reads_numberMember (by decide) _)⟩,
    optional (reads_numberMember (by decide) _)⟩,
    reads_stringMember (by decide) (plain_directionHintName _), by simp⟩

/-- The text of an event is one of its object. -/
theorem reads_event (sendable : record.Sendable) : Json.Reads (eventJson record) (eventText record) := by
  rw [eventText_eq sendable]
  exact Json.reads_object (eventMembers_read sendable)

/-! ## Members by name -/

/-- The last member of that name. -/
def valueOf (name : List Char) : List Json.Member → Option Json
  | [] => none
  | entry :: others => (valueOf name others).or (if entry.key = name then some entry.value else none)

theorem valueOf_nil (name : List Char) : valueOf name [] = none := rfl

theorem valueOf_append (name : List Char) (first second : List Json.Member) :
    valueOf name (first ++ second) = (valueOf name second).or (valueOf name first) := by
  induction first with
  | nil => rw [List.nil_append, valueOf, Option.or_none]
  | cons entry first ih => rw [List.cons_append, valueOf, ih, valueOf, Option.or_assoc]

theorem valueOf_ite (name : List Char) (given : Prop) [Decidable given] (entry : Json.Member) :
    valueOf name (if given then [entry] else []) = if given then valueOf name [entry] else none := by
  split <;> rfl

theorem valueOf_stringMember (name key : String) (text : List Char) (others : List Json.Member) :
    valueOf name.toList (stringMember key text :: others) =
      (valueOf name.toList others).or (if key = name then some (.string text) else none) := by
  simp only [valueOf, stringMember, String.toList_inj]

theorem valueOf_numberMember (name key : String) (number : Nat) (others : List Json.Member) :
    valueOf name.toList (numberMember key number :: others) =
      (valueOf name.toList others).or
        (if key = name then some (.number (Json.numerals.text number)) else none) := by
  simp only [valueOf, numberMember, String.toList_inj]

theorem member_object (name : List Char) (members : List Json.Member) :
    (Json.object (members.map fun entry => (entry.key, entry.value))).member name =
      valueOf name members := by
  induction members with
  | nil => rfl
  | cons entry others ih =>
      rw [valueOf, ← ih]
      simp only [Json.member, List.map_cons, List.reverse_cons, List.find?_append, Option.map_or]
      congr 1
      by_cases same : entry.key = name
      · simp [same]
      · simp [same]

/-- The members of an event by name. -/
structure EventFields (record : PunchRecord) (field : String → Option Json) : Prop where
  seq : field "seq" = some (.number (Json.numerals.text record.seq.toNat))
  eventUuid : field "event_uuid" = some (.string (hyphenated record.uuid.toList))
  capturedAt : field "captured_at" =
    if record.capturedEpochMs > 0 then
      some (.string (formatRfc3339Utc record.capturedEpochMs.toNat))
    else none
  capturedUptimeMs : field "captured_uptime_ms" =
    if record.capturedUptimeMs > 0 then
      some (.number (Json.numerals.text record.capturedUptimeMs.toNat))
    else none
  timeSource : field "time_source" = some (.string (timeSourceName record.timeSource).toList)
  credentialKind : field "credential_kind" =
    some (.string (credentialKindName record.credentialKind).toList)
  slotNo : field "slot_no" =
    if record.slotNo > 0 then some (.number (Json.numerals.text record.slotNo.toNat)) else none
  credentialRef : field "credential_ref" = none
  matchScore : field "match_score" =
    if record.matchScore > 0 then some (.number (Json.numerals.text record.matchScore.toNat)) else none
  directionHint : field "direction_hint" =
    some (.string (directionHintName record.directionHint).toList)
  deviceMode : field "device_mode" = none

theorem eventJson_fields (record : PunchRecord) :
    EventFields record fun name => (eventJson record).member name.toList := by
  have named (name : String) : (eventJson record).member name.toList =
      valueOf name.toList (eventMembers record) :=
    member_object name.toList (eventMembers record)
  constructor
  all_goals
    rw [named, eventMembers, laterMembers]
    simp only [List.cons_append, valueOf_stringMember, valueOf_numberMember, valueOf_append,
      valueOf_ite, valueOf_nil]
    simp

/-! ## Decoding -/

/-- The event the gateway should hold for a record. -/
def received (record : PunchRecord) : PunchEvent where
  seq := record.seq.toNat
  eventUuid := String.ofList (hyphenated record.uuid.toList)
  capturedAt :=
    if record.capturedEpochMs = 0 then ⟨zeroInstant, 0⟩
    else ⟨record.capturedEpochMs.toNat * millisecond, 0⟩
  capturedUptimeMs := record.capturedUptimeMs.toNat
  timeSource := timeSourceName record.timeSource
  credentialKind := credentialKindName record.credentialKind
  slotNo := if record.slotNo = 0 then none else some record.slotNo.toNat
  credentialRef := ""
  matchScore := if record.matchScore = 0 then none else some record.matchScore.toNat
  directionHint := directionHintName record.directionHint
  deviceMode := ""

theorem int64Field_text {number : Nat} (bounded : number < 2 ^ 63) :
    int64Field (some (.number (Json.numerals.text number))) = some (number : Int) :=
  parseInt_text bounded

theorem stringField_text (text : List Char) :
    stringField (some (.string text)) = some (String.ofList text) := rfl

theorem timeField_capturedAt (sendable : record.Sendable) :
    timeField ((eventJson record).member "captured_at".toList) =
      some (if record.capturedEpochMs = 0 then ⟨zeroInstant, 0⟩
        else ⟨record.capturedEpochMs.toNat * millisecond, 0⟩) := by
  rw [(eventJson_fields record).capturedAt]
  by_cases unset : record.capturedEpochMs = 0
  · rw [if_pos unset, if_neg (by simp [unset])]
    rfl
  · rw [if_neg unset, if_pos (UInt64.pos_iff_ne_zero.mpr unset)]
    rw [timeField, parseRfc3339_format (Int.natCast_nonneg _)
      (by exact_mod_cast sendable.capturedEpochMs)]

theorem int64Field_capturedUptimeMs (sendable : record.Sendable) :
    int64Field ((eventJson record).member "captured_uptime_ms".toList) =
      some (record.capturedUptimeMs.toNat : Int) := by
  rw [(eventJson_fields record).capturedUptimeMs]
  by_cases unset : record.capturedUptimeMs = 0
  · rw [unset]
    rfl
  · rw [if_pos (UInt64.pos_iff_ne_zero.mpr unset)]
    exact int64Field_text sendable.capturedUptimeMs

/-- A small number that is left out when it is zero. -/
theorem intPointer_optional (number : UInt16) :
    intPointer (if number > 0 then some (.number (Json.numerals.text number.toNat)) else none) =
      some (if number = 0 then none else some (number.toNat : Int)) := by
  have bounded : number.toNat < 2 ^ 63 := Nat.lt_trans number.toNat_lt (by decide)
  by_cases unset : number = 0
  · rw [if_pos unset, if_neg (by simp [unset])]
    rfl
  · rw [if_neg unset, if_pos (UInt16.pos_iff_ne_zero.mpr unset), intPointer, parseInt_text bounded]
    rfl

theorem decodeEvent_eventJson (sendable : record.Sendable) :
    decodeEvent (eventJson record) = some (received record) := by
  have fields := eventJson_fields record
  have struct : structOf (eventJson record) = some (eventJson record) := rfl
  simp only [decodeEvent, struct, bind, Option.bind_some, pure, fields.seq, fields.eventUuid,
    fields.timeSource, fields.credentialKind, fields.slotNo, fields.credentialRef, fields.matchScore,
    fields.directionHint, fields.deviceMode, timeField_capturedAt sendable,
    int64Field_capturedUptimeMs sendable, intPointer_optional, stringField_text,
    int64Field_text sendable.seq, String.ofList_toList]
  rfl

/-! ## The batch -/

theorem eventsText_succ (index : Nat) (batch : List PunchRecord) :
    eventsText (index + 1) batch = Json.commaBefore (batch.map eventText) := by
  induction batch generalizing index with
  | nil => rfl
  | cons record batch ih =>
      rw [eventsText, if_pos (Nat.succ_pos index), ih, List.map_cons, Json.commaBefore, Json.commaBefore,
        List.flatMap_cons, List.singleton_append]

theorem eventsText_zero (batch : List PunchRecord) :
    eventsText 0 batch = Json.joined (batch.map eventText) := by
  cases batch with
  | nil => rfl
  | cons record batch =>
      rw [eventsText, if_neg (Nat.lt_irrefl 0), eventsText_succ, List.nil_append, List.map_cons, Json.joined]

/-- The array, with the text of the loop. -/
def eventsMember (batch : List PunchRecord) : Json.Member :=
  ⟨"events".toList, .array (batch.map eventJson), '[' :: (eventsText 0 batch ++ [']'])⟩

-- `unfold` would compare the fields first, and so read the text of the key
theorem eventsMember_eq (batch : List PunchRecord) : eventsMember batch =
    ⟨"events".toList, .array (batch.map eventJson), '[' :: (eventsText 0 batch ++ [']'])⟩ := by
  delta eventsMember
  rfl

theorem reads_eventsMember {batch : List PunchRecord} (sendable : ∀ record ∈ batch, record.Sendable) :
    (eventsMember batch).Reads := by
  refine ⟨show Json.Plain "events".toList by decide, ?_⟩
  have reads := @Json.reads_array (batch.map fun record => (eventJson record, eventText record))
    (by
      intro entry member
      obtain ⟨record, inside, rfl⟩ := List.mem_map.mp member
      exact reads_event (sendable record inside))
  rw [List.map_map, List.map_map] at reads
  rw [eventsMember_eq, eventsText_zero]
  exact reads

def requestMembers (batch : List PunchRecord) (envelope : BatchMeta) : List Json.Member :=
  [stringMember "request_id" envelope.requestId.toList,
    numberMember "device_uptime_ms" envelope.deviceUptimeMs.toNat,
    numberMember "buffer_depth" envelope.bufferDepth, eventsMember batch]

def requestJson (batch : List PunchRecord) (envelope : BatchMeta) : Json :=
  .object ((requestMembers batch envelope).map fun entry => (entry.key, entry.value))

/-- An envelope whose numbers are `int64` and whose request id is a uuid.  The depth
is a `size_t`, 32 bits wide on the device. -/
structure BatchMeta.Sendable (envelope : BatchMeta) : Prop where
  requestId : (uuidIn envelope.requestId).isSome = true
  deviceUptimeMs : envelope.deviceUptimeMs.toNat < 2 ^ 63
  bufferDepth : envelope.bufferDepth < 2 ^ 63

variable {batch : List PunchRecord} {envelope : BatchMeta}

theorem buildEventsJson_eq (sendable : envelope.Sendable) :
    buildEventsJson batch envelope =
      '{' :: (Json.joined ((requestMembers batch envelope).map Json.Member.written) ++ ['}']) := by
  have joined : Json.joined ((requestMembers batch envelope).map Json.Member.written) =
      (stringMember "request_id" envelope.requestId.toList).written ++
        following [numberMember "device_uptime_ms" envelope.deviceUptimeMs.toNat,
          numberMember "buffer_depth" envelope.bufferDepth, eventsMember batch] := rfl
  have request : "\x7b\"request_id\":\"".toList =
      '{' :: '"' :: ("request_id".toList ++ ['"', ':', '"']) := rfl
  have events : ",\"events\":[".toList = ',' :: '"' :: ("events".toList ++ ['"', ':', '[']) := rfl
  have close : "]\x7d".toList = [']', '}'] := rfl
  have uptime : "\",\"device_uptime_ms\":".toList =
      '"' :: ',' :: '"' :: ("device_uptime_ms".toList ++ ['"', ':']) := rfl
  have depth : ",\"buffer_depth\":".toList = ',' :: '"' :: ("buffer_depth".toList ++ ['"', ':']) := rfl
  rewrite [joined]
  unfold buildEventsJson
  rewrite [toInt64_of_lt sendable.deviceUptimeMs, chars_jsonInt sendable.deviceUptimeMs,
    chars_jsonInt sendable.bufferDepth, request, uptime, depth, events, close]
  simp only [following_cons, following_nil, List.append_assoc, List.cons_append, List.nil_append]
  simp only [stringMember, numberMember, eventsMember_eq, Json.Member.written, List.append_assoc,
    List.cons_append, List.nil_append]

theorem reads_request (records : ∀ record ∈ batch, record.Sendable) (sendable : envelope.Sendable) :
    Json.Reads (requestJson batch envelope) (buildEventsJson batch envelope) := by
  rw [buildEventsJson_eq sendable]
  apply Json.reads_object
  simp only [List.forall_mem_cons, List.not_mem_nil]
  exact ⟨reads_stringMember (by decide) (plain_of_uuidIn sendable.requestId),
    reads_numberMember (by decide) _, reads_numberMember (by decide) _,
    reads_eventsMember records, by simp⟩

/-- The members of a request by name. -/
structure RequestFields (batch : List PunchRecord) (envelope : BatchMeta)
    (field : String → Option Json) : Prop where
  requestId : field "request_id" = some (.string envelope.requestId.toList)
  deviceUptimeMs : field "device_uptime_ms" =
    some (.number (Json.numerals.text envelope.deviceUptimeMs.toNat))
  bufferDepth : field "buffer_depth" = some (.number (Json.numerals.text envelope.bufferDepth))
  events : field "events" = some (.array (batch.map eventJson))

theorem requestJson_fields (batch : List PunchRecord) (envelope : BatchMeta) :
    RequestFields batch envelope fun name => (requestJson batch envelope).member name.toList := by
  have named (name : String) : (requestJson batch envelope).member name.toList =
      valueOf name.toList (requestMembers batch envelope) :=
    member_object name.toList (requestMembers batch envelope)
  have events (name : String) : valueOf name.toList [eventsMember batch] =
      if "events" = name then some (.array (batch.map eventJson)) else none := by
    simp only [valueOf, eventsMember_eq, String.toList_inj, Option.none_or]
  constructor
  all_goals
    rewrite [named, requestMembers]
    simp only [valueOf_stringMember, valueOf_numberMember, events]
    simp

theorem decodeEvents_eventJson (records : ∀ record ∈ batch, record.Sendable) :
    decodeEvents (some (.array (batch.map eventJson))) = some (batch.map received) := by
  rw [decodeEvents, List.mapM_map]
  exact mapM_eq_map fun record member => decodeEvent_eventJson (records record member)

/-- The request the gateway should hold for a batch. -/
def receivedRequest (batch : List PunchRecord) (envelope : BatchMeta) : EventsRequest where
  requestId := envelope.requestId
  deviceUptimeMs := envelope.deviceUptimeMs.toNat
  bufferDepth := envelope.bufferDepth
  events := batch.map received

theorem decodeRequest_requestJson (records : ∀ record ∈ batch, record.Sendable)
    (sendable : envelope.Sendable) :
    decodeRequest (requestJson batch envelope) = some (receivedRequest batch envelope) := by
  have fields := requestJson_fields batch envelope
  have struct : structOf (requestJson batch envelope) = some (requestJson batch envelope) := rfl
  simp only [decodeRequest, struct, bind, Option.bind_some, pure, fields.requestId,
    fields.deviceUptimeMs, fields.bufferDepth, fields.events, stringField_text,
    int64Field_text sendable.deviceUptimeMs, int64Field_text sendable.bufferDepth,
    decodeEvents_eventJson records, String.ofList_toList]
  rfl

/-! ## The round trip

What the comments of `PunchRecord` say its codes stand for, with the value that the
schema names for every other code.
-/

def credentialKindOf (code : UInt8) : CredentialKind :=
  [CredentialKind.fingerprint, .rfidCard, .nfcTag, .pin, .qr].getD code.toNat .fingerprint

def timeSourceOf (code : UInt8) : TimeSource :=
  [TimeSource.rtcSynced, .rtcUnsynced, .uptimeOnly].getD code.toNat .serverAssigned

def directionHintOf (code : UInt8) : PunchDirection :=
  [PunchDirection.unknown, .in, .out].getD code.toNat .unknown

/-- The labels are those of the schema's types. -/
structure Spelled (record : PunchRecord) (ev : PunchEvent) : Prop where
  credentialKind : CredentialKind.ofText ev.credentialKind = some (credentialKindOf record.credentialKind)
  timeSource : TimeSource.ofText ev.timeSource = some (timeSourceOf record.timeSource)
  directionHint : PunchDirection.ofText ev.directionHint = some (directionHintOf record.directionHint)

theorem ofText_credentialKindName (code : UInt8) :
    CredentialKind.ofText (credentialKindName code) = some (credentialKindOf code) := by
  have all : ∀ code < 256, CredentialKind.ofText (credentialKindName (UInt8.ofNat code)) =
      some (credentialKindOf (UInt8.ofNat code)) := by decide +kernel
  simpa using all code.toNat code.toNat_lt

theorem ofText_timeSourceName (code : UInt8) :
    TimeSource.ofText (timeSourceName code) = some (timeSourceOf code) := by
  have all : ∀ code < 256, TimeSource.ofText (timeSourceName (UInt8.ofNat code)) =
      some (timeSourceOf (UInt8.ofNat code)) := by decide +kernel
  simpa using all code.toNat code.toNat_lt

theorem ofText_directionHintName (code : UInt8) :
    PunchDirection.ofText (directionHintName code) = some (directionHintOf code) := by
  have all : ∀ code < 256, PunchDirection.ofText (directionHintName (UInt8.ofNat code)) =
      some (directionHintOf (UInt8.ofNat code)) := by decide +kernel
  simpa using all code.toNat code.toNat_lt

theorem spelled_received (record : PunchRecord) : Spelled record (received record) where
  credentialKind := ofText_credentialKindName record.credentialKind
  timeSource := ofText_timeSourceName record.timeSource
  directionHint := ofText_directionHintName record.directionHint

/-- The members that may be left out, with the values that decide it. -/
def optionalMembers (record : PunchRecord) : List (String × Nat) :=
  [("captured_at", record.capturedEpochMs.toNat), ("captured_uptime_ms", record.capturedUptimeMs.toNat),
    ("slot_no", record.slotNo.toNat), ("match_score", record.matchScore.toNat)]

theorem eventJson_omits (record : PunchRecord) :
    ∀ entry ∈ optionalMembers record,
      ((eventJson record).member entry.1.toList = none ↔ entry.2 = 0) := by
  have fields := eventJson_fields record
  simp only [optionalMembers, List.forall_mem_cons, fields.capturedAt, fields.capturedUptimeMs,
    fields.slotNo, fields.matchScore, ite_eq_right_iff, reduceCtorEq, imp_false, gt_iff_lt,
    UInt64.pos_iff_ne_zero, UInt16.pos_iff_ne_zero, Decidable.not_not, List.not_mem_nil]
  exact ⟨UInt64.toNat_inj.symm, UInt64.toNat_inj.symm, UInt16.toNat_inj.symm, UInt16.toNat_inj.symm,
    by simp⟩

/-- The text of a batch is JSON, and the gateway decodes it to the same events in the
same order.  An event leaves out exactly the members whose value is zero. -/
theorem buildEventsJson_roundTrip (batch : List PunchRecord) (envelope : BatchMeta)
    (records : ∀ record ∈ batch, record.Sendable) (sendable : envelope.Sendable) :
    ∃ (json : Json) (encoded : PunchRecord → Json),
      Json.parse (buildEventsJson batch envelope) = some json ∧
      decodeRequest json = some (receivedRequest batch envelope) ∧
      json.member "events".toList = some (.array (batch.map encoded)) ∧
      ∀ record ∈ batch, Spelled record (received record) ∧
        decodeEvent (encoded record) = some (received record) ∧
        ∀ entry ∈ optionalMembers record, ((encoded record).member entry.1.toList = none ↔ entry.2 = 0) :=
  ⟨requestJson batch envelope, eventJson, (reads_request records sendable).parse,
    decodeRequest_requestJson records sendable, (requestJson_fields batch envelope).events,
    fun record member => ⟨spelled_received record, decodeEvent_eventJson (records record member),
      eventJson_omits record⟩⟩

/-- A punch with every member, and one with neither clock nor slot and codes that no
table holds. -/
def sampleBatch : List PunchRecord :=
  [{ seq := 7, capturedEpochMs := 1709210096789, capturedUptimeMs := 86400000,
     uuid := Vector.replicate 16 0xa5, slotNo := 12, matchScore := 180, credentialKind := 1,
     timeSource := 0, directionHint := 1, reserved := Vector.replicate 9 0, crc := 0 },
   { seq := 8, capturedEpochMs := 0, capturedUptimeMs := 0, uuid := Vector.replicate 16 0,
     slotNo := 0, matchScore := 0, credentialKind := 200, timeSource := 9, directionHint := 77,
     reserved := Vector.replicate 9 0, crc := 0 }]

def sampleEnvelope : BatchMeta where
  requestId := "00112233-4455-6677-8899-aabbccddeeff"
  deviceUptimeMs := 90000000
  bufferDepth := 2

theorem buildEventsJson_roundTrip_sample :
    ∃ (json : Json) (encoded : PunchRecord → Json),
      Json.parse (buildEventsJson sampleBatch sampleEnvelope) = some json ∧
      decodeRequest json = some (receivedRequest sampleBatch sampleEnvelope) ∧
      json.member "events".toList = some (.array (sampleBatch.map encoded)) ∧
      ∀ record ∈ sampleBatch, Spelled record (received record) ∧
        decodeEvent (encoded record) = some (received record) ∧
        ∀ entry ∈ optionalMembers record, ((encoded record).member entry.1.toList = none ↔ entry.2 = 0) := by
  refine buildEventsJson_roundTrip sampleBatch sampleEnvelope ?_ ⟨by decide +kernel, by decide, by decide⟩
  simp only [sampleBatch, List.forall_mem_cons, List.not_mem_nil]
  exact ⟨⟨by decide, by decide, by decide⟩, ⟨by decide, by decide, by decide⟩, by simp⟩

/-! `wireRequest` reads the same request without the text. -/

theorem wireCapturedAt_eq (sendable : record.Sendable) :
    wireCapturedAt record.capturedEpochMs = some (received record).capturedAt := by
  have bound := sendable.capturedEpochMs
  have epoch : record.capturedEpochMs.toNat < 2 ^ 63 := by
    simp only [year10000Ms] at bound
    omega
  by_cases unset : record.capturedEpochMs = 0
  · rw [wireCapturedAt, if_neg (by simp [unset]), received, if_pos unset]
  · have instant := (civil_spec (Int.natCast_nonneg record.capturedEpochMs.toNat)
      (by exact_mod_cast bound)).2.2.2.2.2.2.2
    rw [wireCapturedAt, if_pos (UInt64.pos_iff_ne_zero.mpr unset), toInt64_of_lt epoch, instant, received,
      if_neg unset]

theorem wireEvent_eq_received (sendable : record.Sendable) :
    wireEvent record = some (received record) := by
  simp only [wireEvent, wireCapturedAt_eq sendable, toInt64_of_lt sendable.seq,
    toInt64_of_lt sendable.capturedUptimeMs, formatUuid_eq, UInt16.pos_iff_ne_zero, received,
    Option.bind_eq_bind, Option.bind_some, ite_not]
  rfl

theorem wireRequest_eq_received (records : ∀ record ∈ batch, record.Sendable)
    (sendable : envelope.Sendable) :
    wireRequest batch envelope = some (receivedRequest batch envelope) := by
  have events : batch.mapM wireEvent = some (batch.map received) :=
    mapM_eq_map fun record member => wireEvent_eq_received (records record member)
  rw [wireRequest, events, toInt64_of_lt sendable.deviceUptimeMs]
  rfl

end Presence.Firmware
