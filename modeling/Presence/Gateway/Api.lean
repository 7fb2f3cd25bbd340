import Presence.Auth.Middleware
import Presence.Gateway.Catalog
import Presence.Gateway.Commands
import Presence.Gateway.IngestSpec
import Presence.Gateway.Roster

namespace Presence.Gateway.Api

open Presence.Auth Presence.Data Presence.Go Presence.Postgres

/-! # The routes of the gateway

`api.go` over one database.  A signed request is served in two parts, each of which
finds the tables as they are by then: the middleware, which loads the device row, and
the handler.  Between them any other request can run, and so can whatever else writes
the database.  The JSON decoder and the release directory are parameters.
-/

/-- The rest of what `LoadDevice` reads of a row. -/
structure Counters where
  configVersion : Int
  rosterVersion : Int
  firmwareChannel : String

/-- With the primary key of `device_command`. -/
structure Tables (Value : Type) where
  db : Database
  counters : Uuid → Counters
  commands : List (CommandRow Value)
  commandKey : (commands.map CommandRow.id).Nodup

structure HeartbeatRequest where
  firmwareVersion : String
  bufferDepth : Int
  rssi : Option Int

structure HeartbeatResponse where
  serverTimeMs : Int
  configVersion : Int
  rosterVersion : Int
  commandsPending : Nat
  ackThrough : Int
  firmwareAvailable : Bool

inductive Response (Value : Type) where
  | problem (status : Nat) (code : String) (detail : Detail)
  | time (serverTimeMs : Int)
  | healthy
  | heartbeat (response : HeartbeatResponse)
  | events (response : EventsResponse)
  | commands (commands : List (Command Value))
  | noContent
  | roster (response : RosterResponse)
  | firmware (manifest : FirmwareManifest)
  | image (content : List UInt8)

def refuse {Value : Type} (status : Nat) (detail : String) : Response Value :=
  .problem status "" (.text detail)

/-- What is not in these files: `json.Unmarshal`, and the catalog behind `s.fw`, which
reads files only. -/
structure Context (Value : Type) where
  keys : Keyring
  sortSlice : SortSlice
  decodeHeartbeat : List UInt8 → Option HeartbeatRequest
  decodeEvents : List UInt8 → Option EventsRequest
  decodeResult : List UInt8 → Option (CommandResult Value)
  firmwareAvailable : (channel current : String) → Bool
  firmwareManifest : (channel current : String) → Response Value
  firmwareImage : (sha : String) → Response Value

/-- The signed routes. -/
inductive Route where
  | heartbeat
  | events
  | commands
  | result (id : String)
  | roster
  | firmware
  | image (sha256 : String)
deriving DecidableEq, Repr

/-- The patterns of `Routes` that go through `signed`.  A `GET` pattern takes `HEAD`
too, and a wildcard one segment that is not empty. -/
def signedRoute (method : String) (segments : List String) : Option Route :=
  match segments with
  | ["", "v1", "device", "heartbeat"] => if method = "POST" then some .heartbeat else none
  | ["", "v1", "device", "events"] => if method = "POST" then some .events else none
  | ["", "v1", "device", "commands"] =>
      if method = "GET" ∨ method = "HEAD" then some .commands else none
  | ["", "v1", "device", "commands", id, "result"] =>
      if method = "POST" ∧ id ≠ "" then some (.result id) else none
  | ["", "v1", "device", "roster"] =>
      if method = "GET" ∨ method = "HEAD" then some .roster else none
  | ["", "v1", "device", "firmware"] =>
      if method = "GET" ∨ method = "HEAD" then some .firmware else none
  | ["", "v1", "device", "firmware", "images", sha256] =>
      if (method = "GET" ∨ method = "HEAD") ∧ sha256 ≠ "" then some (.image sha256) else none
  | _ => none

/-- A request past the middleware. -/
structure Admitted where
  dev : Device
  counters : Counters
  route : Route
  query : String → String
  body : List UInt8

/-- What a handler meets when it runs: the two clocks, the rows that a poll of the
queue may take, the rows that the roster query returns. -/
structure Moment where
  now : Time
  dbNow : Int
  skipped : List Uuid
  ids : List Uuid
  rosterRows : List RosterRow

variable {Value : Type}

/-! ## The handlers -/

def handleHeartbeat (context : Context Value) (tables : Tables Value) (call : Admitted)
    (moment : Moment) : Response Value × Tables Value :=
  match context.decodeHeartbeat call.body with
  | none => (refuse 400 "malformed json", tables)
  | some req =>
      let pending := commandsPending tables.commands call.dev.id moment.dbNow
      if fitsInt4 req.bufferDepth && req.rssi.all fitsInt4 && validText req.firmwareVersion then
        let device := tables.db.device.map fun row =>
          if row.id = call.dev.id then { row with lastBufferDepth := some req.bufferDepth } else row
        (.heartbeat {
            serverTimeMs := moment.now.instant / millisecond
            configVersion := call.counters.configVersion
            rosterVersion := call.counters.rosterVersion
            commandsPending := pending
            ackThrough := call.dev.lastAckSeq
            firmwareAvailable :=
              context.firmwareAvailable call.counters.firmwareChannel req.firmwareVersion },
          { tables with db := { tables.db with device } })
      else (refuse 500 "internal error", tables)

def handleEvents (context : Context Value) (tables : Tables Value) (call : Admitted)
    (moment : Moment) : Response Value × Tables Value :=
  match context.decodeEvents call.body with
  | none => (refuse 400 "malformed json", tables)
  | some req =>
      if req.events = [] then (refuse 400 "empty batch", tables)
      else if req.events.length > 100 then
        (.problem 413 "payload_too_large" (.text "batch exceeds 100 events"), tables)
      else
        match ingestBatch context.sortSlice tables.db call.dev req moment.now with
        | .error _ => (refuse 500 "internal error", tables)
        | .ok (db, response) => (.events response, { tables with db })

/-- Nothing where the database cannot take the rows that the moment names. -/
def handleCommands (tables : Tables Value) (call : Admitted) (moment : Moment) :
    Option (Response Value × Tables Value) :=
  if Selects tables.commands call.dev.id moment.dbNow (commandLimit (call.query "limit"))
      moment.skipped moment.ids then
    let after : Tables Value := { tables with
      commands := deliverAll tables.commands moment.ids moment.dbNow
      commandKey := CommandQueue.nodup_deliverAll moment.ids moment.dbNow tables.commandKey }
    match pendingCommands after.commands moment.ids with
    | some answer => some (.commands answer, after)
    | none => some (refuse 500 "internal error", after)
  else none

def handleCommandResult (context : Context Value) (tables : Tables Value) (call : Admitted)
    (id : String) (moment : Moment) : Response Value × Tables Value :=
  match context.decodeResult call.body with
  | none => (refuse 400 "malformed json", tables)
  | some res =>
      match recorded : recordCommandResult tables.commands call.dev.id id res moment.dbNow with
      | .error _ => (refuse 500 "internal error", tables)
      | .ok (_, commands) =>
          (.noContent, { tables with
            commands
            commandKey := CommandQueue.nodup_recordCommandResult recorded tables.commandKey })

/-- `since, _ := strconv.ParseInt(…)`: a number out of range comes back as the nearest
one, also where what follows is no digit. -/
def parseClamped (limit : Nat) : Nat → List Char → Nat
  | value, [] => min value limit
  | value, char :: rest =>
      if char.isDigit then
        let value := value * 10 + (char.toNat - '0'.toNat)
        if 2 ^ 64 ≤ value then limit else parseClamped limit value rest
      else 0

def rosterSince (text : String) : Int :=
  match text.toList with
  | '-' :: digits => -(parseClamped (2 ^ 63) 0 digits : Nat)
  | '+' :: digits => (parseClamped (2 ^ 63 - 1) 0 digits : Nat)
  | digits => (parseClamped (2 ^ 63 - 1) 0 digits : Nat)

def handleRoster (call : Admitted) (moment : Moment) : Response Value :=
  .roster (rosterDelta call.counters.rosterVersion (rosterSince (call.query "since"))
    moment.rosterRows)

def handleFirmware (context : Context Value) (call : Admitted) : Response Value :=
  if call.query "current" = "" then refuse 400 "current is required"
  else context.firmwareManifest call.counters.firmwareChannel (call.query "current")

def handle (context : Context Value) (tables : Tables Value) (call : Admitted) (moment : Moment) :
    Option (Response Value × Tables Value) :=
  match call.route with
  | .heartbeat => some (handleHeartbeat context tables call moment)
  | .events => some (handleEvents context tables call moment)
  | .commands => handleCommands tables call moment
  | .result id => some (handleCommandResult context tables call id moment)
  | .roster => some (handleRoster call moment, tables)
  | .firmware => some (handleFirmware context call, tables)
  | .image sha256 => some (context.firmwareImage sha256, tables)

/-! ## The server -/

structure ApiRequest where
  request : Request
  query : String → String

structure Server (Value : Type) where
  tables : Tables Value
  nonces : MemoryNonceCache
  inFlight : List Admitted

inductive Input (Value : Type) where
  /-- A request for a signed route reaches the middleware. -/
  | arrive (arrival : ApiRequest) (now : Int)
  /-- One of the requests past it reaches its handler. -/
  | serve (index : Nat) (moment : Moment)
  /-- Something else writes the database. -/
  | write (tables : Tables Value)

namespace Server

/-- `/v1/device/time`, `/v1/device/provision` and `/healthz` touch neither tables nor
cache, and what no pattern takes is answered by the mux. -/
def arrive (context : Context Value) (server : Server Value) (arrival : ApiRequest) (now : Int) :
    Server Value :=
  match signedRoute arrival.request.method (arrival.request.path.splitOn "/") with
  | none => server
  | some route =>
      match signed context.keys server.tables.db server.nonces arrival.request now with
      | (.problem .., nonces) => { server with nonces }
      | (.handled dev body, nonces) =>
          { server with
            nonces
            inFlight := server.inFlight ++
              [⟨dev, server.tables.counters dev.id, route, arrival.query, body⟩] }

def step (context : Context Value) (server : Server Value) : Input Value → Option (Server Value)
  | .arrive arrival now => some (server.arrive context arrival now)
  | .serve index moment =>
      match server.inFlight[index]? with
      | none => none
      | some call =>
          match handle context server.tables call moment with
          | none => none
          | some (_, tables) =>
              some { server with tables, inFlight := server.inFlight.eraseIdx index }
  | .write tables => some { server with tables }

end Server

/-! ## What a handler may change -/

/-- The rows that carry the id of one device. -/
structure Owned (Value : Type) where
  device : List DeviceRow
  punchEvent : List PunchEventRow
  syncBatch : List SyncBatchRow
  commands : List (CommandRow Value)

def Tables.owned (tables : Tables Value) (device : Uuid) : Owned Value where
  device := tables.db.device.filter (·.id = device)
  punchEvent := tables.db.punchEvent.filter (·.deviceId = device)
  syncBatch := tables.db.syncBatch.filter (·.deviceId = device)
  commands := tables.commands.filter (·.deviceId = device)

/-- A change to rows of another key, none of which gets this one. -/
theorem filter_map_other {α κ : Type} [DecidableEq κ] {key : α → κ} {name : κ} {change : α → α}
    (rows : List α) (kept : ∀ row, key (change row) = key row)
    (other : ∀ row ∈ rows, key row = name → change row = row) :
    (rows.map change).filter (key · = name) = rows.filter (key · = name) := by
  induction rows with
  | nil => rfl
  | cons row rest ih =>
      have later := ih fun next member => other next (List.mem_cons_of_mem _ member)
      by_cases named : key row = name
      · rw [List.map_cons, other row List.mem_cons_self named, List.filter_cons, List.filter_cons,
          later]
      · rw [List.map_cons, List.filter_cons_of_neg (by simpa [kept] using named),
          List.filter_cons_of_neg (by simpa using named), later]

section Ingest

variable {dev : Device} {device : Uuid} {db after : Database} {now : Time}

theorem ingestEvent_others {ev : PunchEvent} {deviceUptimeMs : Int} {verdict : Verdict}
    (done : ingestEvent dev deviceUptimeMs now db ev = .ok (after, verdict))
    (other : dev.id ≠ device) :
    after.punchEvent.filter (·.deviceId = device) = db.punchEvent.filter (·.deviceId = device) ∧
      after.syncBatch = db.syncBatch ∧ after.device = db.device := by
  obtain ⟨judgement, columns, -, -, -, effect⟩ := ingestEvent_cases done
  obtain ⟨-, -, rfl⟩ | ⟨-, -, -, rfl⟩ := effect
  · exact ⟨rfl, rfl, rfl⟩
  · refine ⟨?_, rfl, rfl⟩
    have foreign : ¬ (newRow db dev ev now judgement columns).deviceId = device := other
    simp [foreign]

theorem ingestEvents_others {events : List PunchEvent} {deviceUptimeMs : Int}
    {verdicts : List (Int × Verdict)}
    (done : ingestEvents dev deviceUptimeMs now db events = .ok (after, verdicts))
    (other : dev.id ≠ device) :
    after.punchEvent.filter (·.deviceId = device) = db.punchEvent.filter (·.deviceId = device) ∧
      after.syncBatch = db.syncBatch ∧ after.device = db.device := by
  induction events generalizing db verdicts with
  | nil =>
      cases done
      exact ⟨rfl, rfl, rfl⟩
  | cons ev events ih =>
      obtain ⟨middle, verdict, rest, first, remaining, -⟩ := ingestEvents_cons_invert done
      obtain ⟨events, batches, devices⟩ := ingestEvent_others first other
      obtain ⟨laterEvents, laterBatches, laterDevices⟩ := ih remaining
      exact ⟨laterEvents.trans events, laterBatches.trans batches, laterDevices.trans devices⟩

theorem insertSyncBatch_others {requestId : String} {events : List PunchEvent}
    {response : EventsResponse}
    (done : insertSyncBatch db dev requestId events response = .ok after)
    (other : dev.id ≠ device) :
    after.syncBatch.filter (·.deviceId = device) = db.syncBatch.filter (·.deviceId = device) := by
  simp only [insertSyncBatch] at done
  split at done
  · obtain ⟨found, -, returned⟩ := except_bind_ok_iff.mp done
    cases returned
    simp [other]
  · cases done
    rfl

end Ingest

theorem owned_ingest {sortSlice : SortSlice} {tables : Tables Value} {dev : Device} {device : Uuid}
    {req : EventsRequest} {now : Time} {db : Database} {response : EventsResponse}
    (done : ingestBatch sortSlice tables.db dev req now = .ok (db, response))
    (other : dev.id ≠ device) :
    Tables.owned { tables with db } device = tables.owned device := by
  have updated := (ingestBatch_effect done).device
  simp only [ingestBatch, except_bind_ok_iff] at done
  obtain ⟨⟨middle, verdicts⟩, loop, logged, log, final, update, returned⟩ := done
  cases returned
  obtain ⟨-, same⟩ := check_ok_iff.mp update
  obtain ⟨events, batches, -⟩ := ingestEvents_others loop other
  obtain ⟨sameEvents, -⟩ := insertSyncBatch_invert log
  have sameBatches := insertSyncBatch_others log other
  have devices : db.device.filter (·.id = device) = tables.db.device.filter (·.id = device) := by
    rw [updated]
    exact filter_map_other _ (fun row => by split <;> rfl)
      (fun row _ named => if_neg fun own => other (own.symm.trans named))
  have stored : db.punchEvent.filter (·.deviceId = device) =
      tables.db.punchEvent.filter (·.deviceId = device) := by
    rw [← same, ← events, ← sameEvents]
  have listed : db.syncBatch.filter (·.deviceId = device) =
      tables.db.syncBatch.filter (·.deviceId = device) := by
    rw [← same, ← batches, ← sameBatches]
  simp only [Tables.owned, devices, stored, listed]

theorem owned_heartbeat {tables : Tables Value} {device owner : Uuid} (bufferDepth : Int)
    (other : owner ≠ device) :
    Tables.owned { tables with db := { tables.db with
        device := tables.db.device.map fun row =>
          if row.id = owner then { row with lastBufferDepth := some bufferDepth } else row } }
      device = tables.owned device := by
  have devices : (tables.db.device.map fun row =>
      if row.id = owner then { row with lastBufferDepth := some bufferDepth } else row).filter
        (·.id = device) = tables.db.device.filter (·.id = device) :=
    filter_map_other _ (fun row => by split <;> rfl)
      (fun row _ named => if_neg fun own => other (own.symm.trans named))
  simp only [Tables.owned, devices]

theorem owned_deliverAll {tables : Tables Value} {device owner : Uuid} {now : Int} {limit : Nat}
    {skipped ids : List Uuid} (selects : Selects tables.commands owner now limit skipped ids)
    (other : owner ≠ device) :
    Tables.owned { tables with
      commands := deliverAll tables.commands ids now
      commandKey := CommandQueue.nodup_deliverAll ids now tables.commandKey } device =
      tables.owned device := by
  have commands : (deliverAll tables.commands ids now).filter (·.deviceId = device) =
      tables.commands.filter (·.deviceId = device) := by
    refine filter_map_other _ (fun row => by split <;> rfl) (fun row here named => if_neg ?_)
    intro taken
    have taken := List.contains_iff_mem.mp taken
    obtain ⟨found, among, same⟩ := List.mem_map.mp (selects.among row.id taken)
    obtain ⟨there, pending, -⟩ := CommandQueue.mem_candidates.mp among
    cases List.inj_on_of_nodup_map tables.commandKey there here same
    exact other ((CommandQueue.pending_iff.mp pending).1.symm.trans named)
  simp only [Tables.owned, commands]

theorem owned_result {tables : Tables Value} {device owner id : Uuid} {commandId : String}
    {res : CommandResult Value} {now : Int} {commands : List (CommandRow Value)}
    (done : recordCommandResult tables.commands owner commandId res now = .ok (id, commands))
    (other : owner ≠ device) :
    commands.filter (·.deviceId = device) = tables.commands.filter (·.deviceId = device) := by
  obtain ⟨uuid, -, checked⟩ := except_bind_ok_iff.mp done
  obtain ⟨⟨⟩, -, returned⟩ := except_bind_ok_iff.mp checked
  cases returned
  exact filter_map_other _ (fun row => by split <;> rfl)
    (fun row _ named => if_neg fun own => other (own.2.symm.trans named))

section Handlers

variable {context : Context Value} {tables after : Tables Value} {call : Admitted} {moment : Moment}
  {response : Response Value} {device : Uuid}

theorem owned_handleHeartbeat (other : call.dev.id ≠ device) :
    (handleHeartbeat context tables call moment).2.owned device = tables.owned device := by
  simp only [handleHeartbeat]
  split
  · rfl
  · split
    · exact owned_heartbeat _ other
    · rfl

theorem owned_handleEvents (other : call.dev.id ≠ device) :
    (handleEvents context tables call moment).2.owned device = tables.owned device := by
  simp only [handleEvents]
  split
  · rfl
  · split
    · rfl
    · split
      · rfl
      · split
        · rfl
        · rename_i done
          exact owned_ingest done other

theorem owned_handleCommands (handled : handleCommands tables call moment = some (response, after))
    (other : call.dev.id ≠ device) : after.owned device = tables.owned device := by
  simp only [handleCommands, Option.ite_none_right_eq_some] at handled
  obtain ⟨selects, answered⟩ := handled
  have kept := owned_deliverAll selects other
  split at answered
  · cases answered
    exact kept
  · cases answered
    exact kept

theorem owned_handleCommandResult (id : String) (other : call.dev.id ≠ device) :
    (handleCommandResult context tables call id moment).2.owned device = tables.owned device := by
  simp only [handleCommandResult]
  split
  · rfl
  · split
    · rfl
    · rename_i recorded
      have kept := owned_result recorded other
      simp only [Tables.owned, kept]

/-- A request handled for one device leaves the rows of every other alone. -/
theorem owned_handle (handled : handle context tables call moment = some (response, after))
    (other : call.dev.id ≠ device) : after.owned device = tables.owned device := by
  simp only [handle] at handled
  cases route : call.route with
  | heartbeat =>
      simp only [route, Option.some.injEq] at handled
      have kept : (handleHeartbeat context tables call moment).2.owned device =
          tables.owned device := owned_handleHeartbeat other
      rwa [handled] at kept
  | events =>
      simp only [route, Option.some.injEq] at handled
      have kept : (handleEvents context tables call moment).2.owned device =
          tables.owned device := owned_handleEvents other
      rwa [handled] at kept
  | commands =>
      simp only [route] at handled
      exact owned_handleCommands handled other
  | result id =>
      simp only [route, Option.some.injEq] at handled
      have kept : (handleCommandResult context tables call id moment).2.owned device =
          tables.owned device := owned_handleCommandResult id other
      rwa [handled] at kept
  | roster | firmware | image =>
      simp only [route, Option.some.injEq, Prod.mk.injEq] at handled
      rw [handled.2]

end Handlers

/-! ## Who a request is served as -/

/-- A secret of the row, as the keyring opens it, under the version a request names. -/
inductive Holds (keys : Keyring) (row : DeviceRow) : Int → List UInt8 → Prop
  | current (secret : List UInt8)
      (opened : openSecret keys row.id row.secretEnc row.secretNonce row.secretKeyId =
        some (some secret)) : Holds keys row row.keyVersion secret
  | previous (version : Int) (secret : List UInt8) (named : row.prevKeyVersion = some version)
      (opened : openSecret keys row.id row.prevSecretEnc row.prevSecretNonce row.prevSecretKeyId =
        some (some secret)) : Holds keys row version secret

/-- The request is recent and carries the signature that a secret of the device's row
gives it, and the device is in service. -/
def SignedBy (keys : Keyring) (db : Database) (device : Uuid) (request : Request) (now : Int) :
    Prop :=
  ∃ row ∈ db.device, row.id = device ∧ row.state ≠ .suspended ∧ row.state ≠ .retired ∧
    ∃ version secret ms, Holds keys row version secret ∧ extractKeyVersion request = .ok version ∧
      parseInt request.timestamp = some ms ∧ InWindow ms now ∧
      request.signature = sign secret request.method request.path (unixMilli (ms * millisecond))
        request.nonce request.body

theorem holds_of_insert {keys : Keyring} {row : DeviceRow} {current : Secrets} {version other : Int}
    {raw secret : List UInt8}
    (held : ∀ raw, current.lookup version = some raw → Holds keys row version raw)
    (named : row.prevKeyVersion = some other)
    (stored : openSecret keys row.id row.prevSecretEnc row.prevSecretNonce row.prevSecretKeyId =
      some (some raw))
    (found : (current.insert other raw).lookup version = some secret) :
    Holds keys row version secret := by
  by_cases same : version = other
  · subst same
    rw [AList.lookup_insert] at found
    cases found
    exact .previous version _ named stored
  · rw [AList.lookup_insert_ne same] at found
    exact held secret found

theorem holds_of_loadSecrets {keys : Keyring} {row : DeviceRow} {secrets : Secrets}
    (loaded : loadSecrets keys row = .ok secrets) {version : Int} {secret : List UInt8}
    (found : secrets.lookup version = some secret) : Holds keys row version secret := by
  unfold loadSecrets at loaded
  simp only at loaded
  split at loaded
  · have held (raw : List UInt8) (none : (∅ : Secrets).lookup version = some raw) :
        Holds keys row version raw := by simp at none
    split at loaded
    · rename_i stored named
      cases loaded
      exact holds_of_insert held named stored found
    · cases loaded
      exact held secret found
  · contradiction
  · rename_i raw stored
    have held (other : List UInt8)
        (here : (AList.singleton row.keyVersion raw : Secrets).lookup version = some other) :
        Holds keys row version other := by
      rw [← AList.insert_empty] at here
      by_cases same : version = row.keyVersion
      · subst same
        rw [AList.lookup_insert] at here
        cases here
        exact .current _ stored
      · rw [AList.lookup_insert_ne same] at here
        simp at here
    split at loaded
    · rename_i previous named
      cases loaded
      exact holds_of_insert held named previous found
    · cases loaded
      exact held secret found

theorem loadDevice_holds {keys : Keyring} {db : Database} {id : String} {dev : Device}
    (loaded : loadDevice keys db id = .ok dev) :
    ∃ row ∈ db.device, row.id = dev.id ∧ row.state ≠ .suspended ∧ row.state ≠ .retired ∧
      loadSecrets keys row = .ok dev.secrets := by
  simp only [loadDevice] at loaded
  split at loaded
  · contradiction
  · split at loaded
    · contradiction
    · rename_i row found
      split at loaded
      · contradiction
      · rename_i serving
        obtain ⟨secrets, opened, rest⟩ := except_bind_ok_iff.mp loaded
        split at rest
        · contradiction
        · cases rest
          obtain ⟨active, kept⟩ := not_or.mp serving
          exact ⟨row, List.mem_of_find?_eq_some found, rfl, active, kept, opened⟩

theorem extract_version {request : Request} {creds : Credentials}
    (read : extract request = .ok creds) :
    extractKeyVersion request = .ok creds.keyVersion ∧ creds.signature = request.signature := by
  simp only [extract] at read
  split at read
  · contradiction
  · split at read
    · contradiction
    · obtain ⟨version, given, returned⟩ := except_bind_ok_iff.mp read
      cases returned
      exact ⟨given, rfl⟩

theorem signedBy_of_handled {keys : Keyring} {db : Database} {nonces after : MemoryNonceCache}
    {request : Request} {now : Int} {dev : Device} {body : List UInt8}
    (served : signed keys db nonces request now = (.handled dev body, after)) :
    SignedBy keys db dev.id request now := by
  simp only [signed] at served
  split at served
  · cases served
  · split at served
    · cases served
    · rename_i creds read
      obtain ⟨-, sameNonce, ms, parsed, sameTime⟩ := extract_invert read
      obtain ⟨version, sameSignature⟩ := extract_version read
      split at served
      case h_4 =>
        rename_i loadedDev loaded
        obtain ⟨row, here, named, active, kept, opened⟩ := loadDevice_holds loaded
        let call : VerifyCall :=
          ⟨creds, now, request.method, request.path, request.body, loadedDev.secrets⟩
        obtain ⟨window, ⟨secret, found, signature⟩, -⟩ | ⟨-, error, answer⟩ :=
          call.verify_cases nonces
        · have same : loadedDev = dev := by
            simp only [respond] at served
            split at served <;> cases served
            rfl
          subst same
          refine ⟨row, here, named, active, kept, creds.keyVersion, secret, ms,
            holds_of_loadSecrets opened found, version, parsed, ?_, ?_⟩
          · rw [InWindow, ← sameTime]
            exact window
          · rw [← sameSignature, signature, sameTime, sameNonce]
        · simp only [VerifyCall.verify, call] at answer
          rw [answer] at served
          cases error <;> cases served
      all_goals cases served

namespace Server

variable {context : Context Value} {server next final : Server Value} {device : Uuid}

/-- No request signed with a secret of the device comes in, and what else writes the
database leaves the device's rows alone. -/
def Unsigned (context : Context Value) (device : Uuid) (server : Server Value) :
    Input Value → Prop
  | .arrive arrival now => ¬ SignedBy context.keys server.tables.db device arrival.request now
  | .serve .. => True
  | .write tables => tables.owned device = server.tables.owned device

/-- No request past the middleware is the device's. -/
structure Untouched (device : Uuid) (owned : Owned Value) (server : Server Value) : Prop where
  rows : server.tables.owned device = owned
  others : ∀ call ∈ server.inFlight, call.dev.id ≠ device

theorem Untouched.step {owned : Owned Value} {input : Input Value}
    (untouched : server.Untouched device owned) (unsigned : Unsigned context device server input)
    (taken : server.step context input = some next) : next.Untouched device owned := by
  cases input with
  | write tables =>
      cases taken
      exact ⟨unsigned.trans untouched.rows, untouched.others⟩
  | serve index moment =>
      simp only [Server.step] at taken
      split at taken
      · contradiction
      · rename_i call found
        split at taken
        · contradiction
        · rename_i response tables handled
          cases taken
          have other := untouched.others call (List.mem_of_getElem? found)
          exact ⟨(owned_handle handled other).trans untouched.rows,
            fun kept member => untouched.others kept (List.mem_of_mem_eraseIdx member)⟩
  | arrive arrival now =>
      simp only [Server.step, Option.some.injEq] at taken
      cases taken
      simp only [arrive]
      split
      · exact untouched
      · split
        · exact ⟨untouched.rows, untouched.others⟩
        · rename_i route _ _ dev body nonces served
          refine ⟨untouched.rows, fun call member => ?_⟩
          obtain old | new := List.mem_append.mp member
          · exact untouched.others call old
          · cases List.mem_singleton.mp new
            intro own
            exact unsigned (own ▸ signedBy_of_handled served)

/-- Whatever requests come in and however they overlap, the rows of a device are only
changed for a request signed with a secret of that device. -/
theorem rows_only_by_signature {inputs : List (Input Value)}
    (idle : ∀ call ∈ server.inFlight, call.dev.id ≠ device)
    (unsigned : Along (step context) (Unsigned context device) server inputs)
    (ran : run (step context) server inputs = some final) :
    final.tables.owned device = server.tables.owned device := by
  have start : server.Untouched device (server.tables.owned device) := ⟨rfl, idle⟩
  exact (unsigned.invariant (fun _ _ _ untouched unsigned taken => untouched.step unsigned taken)
    start ran).rows

/-! ## What no request does

Whoever signs it, a request adds events and batches, moves an acknowledgement up, and
fills in what became of a command; it removes nothing, and no secret, person, credential
or slot binding is its to change.
-/

/-- The columns of a device that requests write. -/
def Acknowledged (before after : DeviceRow) : Prop :=
  after = { before with lastAckSeq := after.lastAckSeq, lastBufferDepth := after.lastBufferDepth } ∧
    before.lastAckSeq ≤ after.lastAckSeq

structure OnlyAdds (before after : Tables Value) : Prop where
  punchEvent : before.db.punchEvent <+: after.db.punchEvent
  syncBatch : before.db.syncBatch <+: after.db.syncBatch
  person : after.db.person = before.db.person
  credential : after.db.credential = before.db.credential
  deviceSlot : after.db.deviceSlot = before.db.deviceSlot
  device : List.Forall₂ Acknowledged before.db.device after.db.device
  commands : List.Forall₂ CommandRow.SameOrder before.commands after.commands

theorem acknowledged_refl (row : DeviceRow) : Acknowledged row row := ⟨rfl, Int.le_refl _⟩

theorem acknowledged_trans {first second third : DeviceRow} (left : Acknowledged first second)
    (right : Acknowledged second third) : Acknowledged first third := by
  obtain ⟨same, early⟩ := left
  obtain ⟨kept, late⟩ := right
  refine ⟨?_, Int.le_trans early late⟩
  rw [kept, same]

theorem forall₂_trans {α : Type} (relation : α → α → Prop)
    (trans : ∀ first second third, relation first second → relation second third →
      relation first third) {left middle right : List α}
    (early : List.Forall₂ relation left middle) (late : List.Forall₂ relation middle right) :
    List.Forall₂ relation left right := by
  induction early generalizing right with
  | nil => exact late
  | cons head tail ih =>
      cases late with
      | cons next rest => exact .cons (trans _ _ _ head next) (ih rest)

theorem OnlyAdds.refl (tables : Tables Value) : OnlyAdds tables tables where
  punchEvent := List.prefix_rfl
  syncBatch := List.prefix_rfl
  person := rfl
  credential := rfl
  deviceSlot := rfl
  device := List.forall₂_same.mpr fun row _ => acknowledged_refl row
  commands := List.forall₂_same.mpr fun row _ => .refl row

theorem OnlyAdds.trans {first second third : Tables Value} (left : OnlyAdds first second)
    (right : OnlyAdds second third) : OnlyAdds first third where
  punchEvent := left.punchEvent.trans right.punchEvent
  syncBatch := left.syncBatch.trans right.syncBatch
  person := right.person.trans left.person
  credential := right.credential.trans left.credential
  deviceSlot := right.deviceSlot.trans left.deviceSlot
  device := forall₂_trans Acknowledged (fun _ _ _ => acknowledged_trans) left.device right.device
  commands := forall₂_trans CommandRow.SameOrder (fun _ _ _ => .trans) left.commands right.commands

section Adds

variable {context : Context Value} {tables after : Tables Value} {call : Admitted} {moment : Moment}
  {response : Response Value}

end Adds

/-- What else writes the database does no more than requests do. -/
def Harmless (server : Server Value) : Input Value → Prop
  | .arrive .. | .serve .. => True
  | .write tables => OnlyAdds server.tables tables

def sampleContext : Context Unit where
  keys := Auth.Server.sampleKeys
  sortSlice := sortBySeq
  decodeHeartbeat := fun _ => some ⟨"1.2.0", 3, none⟩
  decodeEvents := fun _ => none
  decodeResult := fun _ => none
  firmwareAvailable := fun _ _ => false
  firmwareManifest := fun _ _ => .firmware .unavailable
  firmwareImage := fun _ => refuse 404 "no such image"

def sampleTables : Tables Unit where
  db := Auth.Server.sampleDatabase
  counters := fun _ => ⟨1, 0, "stable"⟩
  commands := [CommandQueue.ordered 1 100]
  commandKey := List.nodup_singleton _

/-- A heartbeat and a poll of one device, past the middleware. -/
def otherDevice : Device := ⟨7, 2, .entry, AList.singleton 1 [1, 2, 3], 0⟩

def sampleCalls : Server Unit where
  tables := sampleTables
  nonces := newMemoryNonceCache
  inFlight := [⟨otherDevice, ⟨1, 0, "stable"⟩, .heartbeat, fun _ => "", []⟩,
    ⟨otherDevice, ⟨1, 0, "stable"⟩, .commands, fun _ => "", []⟩]

def sampleMoment : Moment := ⟨⟨500, 0⟩, 500, [], [], []⟩

theorem others_left_alone :
    ∃ final, run (step sampleContext) sampleCalls [.serve 1 sampleMoment, .serve 0 sampleMoment] =
        some final ∧
      final.tables.owned CommandQueue.gateTerminal =
        sampleTables.owned CommandQueue.gateTerminal := by
  have unsigned : Along (step sampleContext) (Unsigned sampleContext CommandQueue.gateTerminal)
      sampleCalls [.serve 1 sampleMoment, .serve 0 sampleMoment] :=
    ⟨trivial, fun _ _ => ⟨trivial, fun _ _ => trivial⟩⟩
  exact ⟨_, rfl, rows_only_by_signature (by decide) unsigned rfl⟩

end Server

end Presence.Gateway.Api
