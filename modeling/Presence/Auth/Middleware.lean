import Presence.Auth.Replay
import Presence.Gateway.Device

namespace Presence.Auth

open Presence.Data Presence.Go Presence.Postgres Presence.Gateway

/-! # The signing middleware

`Server.signed` of `api.go`: size, headers, device row, signature, handler.  One
process serves the requests one after another over one nonce cache; the device
table is whatever it is when a request arrives.
-/

inductive Detail where
  | text (message : String)
  | headers (error : Error)
deriving DecidableEq, Repr

inductive Outcome where
  | problem (status : Nat) (code : String) (detail : Detail)
  | handled (dev : Device) (body : List UInt8)

def maxBodyBytes : Nat := 2 ^ 20

def respond (dev : Device) (body : List UInt8) : Except Error Unit → Outcome
  | .error .clockSkew =>
      .problem 401 "clock_skew" (.text "timestamp outside accepted window")
  | .error .nonceReplay => .problem 401 "nonce_replay" (.text "nonce already used")
  | .error _ => .problem 401 "bad_signature" (.text "signature mismatch")
  | .ok () => .handled dev body

def signed (keys : Keyring) (db : Database) (nonces : MemoryNonceCache) (request : Request)
    (now : Int) : Outcome × MemoryNonceCache :=
  if maxBodyBytes < request.body.length then
    (.problem 413 "payload_too_large" (.text "request body too large"), nonces)
  else
    match extract request with
    | .error error => (.problem 401 "bad_signature" (.headers error), nonces)
    | .ok creds =>
        match loadDevice keys db creds.deviceId with
        | .error .deviceUnknown => (.problem 401 "device_unknown" (.text "unknown device"), nonces)
        | .error .deviceSuspended =>
            (.problem 403 "device_suspended" (.text "device suspended"), nonces)
        | .error _ => (.problem 500 "" (.text "internal error"), nonces)
        | .ok dev =>
            let (verified, nonces) :=
              verify creds now request.method request.path request.body nonces dev.secrets
            (respond dev request.body verified, nonces)

/-- What an eavesdropper has of a signed request. -/
structure Captured where
  method : String
  path : String
  body : List UInt8
  timestampMs : Int
  nonce : String
  signature : String
deriving DecidableEq

def Request.captured (request : Request) : Option Captured :=
  (parseInt request.timestamp).map fun timestampMs =>
    ⟨request.method, request.path, request.body, timestampMs, request.nonce, request.signature⟩

structure Arrival where
  now : Int
  db : Database
  request : Request

/-- A request that reached its handler: as which row, under which spelling of the
id, and when. -/
structure Handled where
  captured : Captured
  row : Uuid
  deviceId : String
  moment : Int

structure Server where
  nonces : MemoryNonceCache
  clock : Int
  handled : List Handled

namespace Server

def start (clock : Int) : Server := ⟨newMemoryNonceCache, clock, []⟩

def serve (keys : Keyring) (server : Server) (arrival : Arrival) : Server :=
  match signed keys arrival.db server.nonces arrival.request arrival.now,
      arrival.request.captured with
  | (.handled dev _, nonces), some captured =>
      ⟨nonces, arrival.now, server.handled ++
        [⟨captured, dev.id, arrival.request.deviceId, arrival.now⟩]⟩
  | (_, nonces), _ => ⟨nonces, arrival.now, server.handled⟩

def step (keys : Keyring) (server : Server) (arrival : Arrival) : Option Server :=
  if server.clock ≤ arrival.now then some (server.serve keys arrival) else none

/-- No captured request reached its handler twice as one device row. -/
def AtMostOnce (server : Server) : Prop :=
  (server.handled.map fun past => (past.captured, past.row)).Nodup

/-- A copy of a request that reached its handler names the row as that one did. -/
def SpelledAlike (server : Server) (arrival : Arrival) : Prop :=
  ∀ past ∈ server.handled, arrival.request.captured = some past.captured →
    uuidIn arrival.request.deviceId = some past.row → arrival.request.deviceId = past.deviceId

end Server

/-! ## What a served request did -/

variable {keys : Keyring} {request : Request} {now : Int}

theorem extract_invert {creds : Credentials} (read : extract request = .ok creds) :
    creds.deviceId = request.deviceId ∧ creds.nonce = request.nonce ∧
      ∃ ms, parseInt request.timestamp = some ms ∧ creds.timestamp = ms * millisecond := by
  simp only [extract] at read
  split at read
  · contradiction
  · split at read
    · contradiction
    · rename_i ms parsed
      obtain ⟨version, -, returned⟩ := except_bind_ok_iff.mp read
      cases returned
      exact ⟨rfl, rfl, ms, parsed, rfl⟩

def InWindow (timestampMs now : Int) : Prop :=
  timestampMs * millisecond - maxSkew ≤ now ∧ now ≤ timestampMs * millisecond + maxSkew

instance (timestampMs now : Int) : Decidable (InWindow timestampMs now) :=
  inferInstanceAs (Decidable (_ ∧ _))

/-- A request reaches its handler with its nonce granted; otherwise the cache is
as it was, or has refused the nonce. -/
inductive Served (nonces : MemoryNonceCache) (request : Request) (now : Int) :
    Outcome × MemoryNonceCache → Prop
  | handled (dev : Device) (timestampMs : Int) (after : MemoryNonceCache)
      (named : uuidIn request.deviceId = some dev.id)
      (parsed : parseInt request.timestamp = some timestampMs) (window : InWindow timestampMs now)
      (granted : nonces.claim request.deviceId request.nonce now = (true, after)) :
      Served nonces request now (.handled dev request.body, after)
  | turnedAway (status : Nat) (code : String) (detail : Detail) :
      Served nonces request now (.problem status code detail, nonces)
  | replayed (status : Nat) (code : String) (detail : Detail) (after : MemoryNonceCache)
      (refused : nonces.claim request.deviceId request.nonce now = (false, after)) :
      Served nonces request now (.problem status code detail, after)

theorem served_signed (keys : Keyring) (db : Database) (nonces : MemoryNonceCache)
    (request : Request) (now : Int) :
    Served nonces request now (signed keys db nonces request now) := by
  simp only [signed]
  split
  · exact .turnedAway ..
  · split
    · exact .turnedAway ..
    · rename_i creds read
      obtain ⟨sameId, sameNonce, timestampMs, parsed, sameTime⟩ := extract_invert read
      split
      · exact .turnedAway ..
      · exact .turnedAway ..
      · exact .turnedAway ..
      · rename_i dev loaded
        obtain ⟨row, -, named, sameRow, -⟩ := loadDevice_invert loaded
        let call : VerifyCall :=
          ⟨creds, now, request.method, request.path, request.body, dev.secrets⟩
        rcases call.verify_cases nonces with ⟨window, -, answer⟩ | ⟨-, error, answer⟩
        · simp only [VerifyCall.verify, call] at answer
          rw [answer, sameId, sameNonce]
          rcases claim : nonces.claim request.deviceId request.nonce now with ⟨unused, after⟩
          cases unused with
          | true =>
              have near : InWindow timestampMs now := by
                rw [InWindow, ← sameTime]
                exact window
              exact .handled dev timestampMs after (by rw [← sameId, named, sameRow]) parsed near claim
          | false => exact .replayed _ _ _ after claim
        · simp only [VerifyCall.verify, call] at answer
          rw [answer]
          cases error <;> exact .turnedAway ..

theorem sign_ne_empty (secret : List UInt8) (method path : String) (tsMillis : Int) (nonce : String)
    (body : List UInt8) : sign secret method path tsMillis nonce body ≠ "" :=
  encodeHex_ne_empty (by simp)

theorem signed_of_verify {db : Database} {nonces after : MemoryNonceCache} {creds : Credentials}
    {dev : Device} {result : Except Error Unit} (small : request.body.length ≤ maxBodyBytes)
    (read : extract request = .ok creds) (loaded : loadDevice keys db creds.deviceId = .ok dev)
    (verified : verify creds now request.method request.path request.body nonces dev.secrets =
      (result, after)) :
    signed keys db nonces request now = (respond dev request.body result, after) := by
  simp only [signed, Nat.not_lt.mpr small, ↓reduceIte, read, loaded, verified]

namespace Server

variable {server next : Server} {arrival : Arrival}

def granted (server : Server) : List (String × Int) :=
  server.handled.map fun past => (MemoryNonceCache.key past.deviceId past.captured.nonce, past.moment)

structure Tracks (server : Server) : Prop where
  ledger : server.nonces.Ledger server.clock server.granted
  inWindow : ∀ past ∈ server.handled, InWindow past.captured.timestampMs past.moment
  atMostOnce : server.AtMostOnce

theorem Tracks.unhandled (tracks : server.Tracks) {nonces : MemoryNonceCache}
    (ledger : nonces.Ledger now server.granted) : Tracks ⟨nonces, now, server.handled⟩ :=
  ⟨ledger, tracks.inWindow, tracks.atMostOnce⟩

/-- A copy of an earlier request that reaches its handler as the same row has
another spelling of the id: under the same spelling its nonce is still taken. -/
theorem Tracks.handle (tracks : server.Tracks) {captured : Captured} {row : Uuid}
    {nonces : MemoryNonceCache} (alike : server.SpelledAlike arrival)
    (copy : arrival.request.captured = some captured)
    (named : uuidIn arrival.request.deviceId = some row)
    (window : InWindow captured.timestampMs arrival.now)
    (old : ∀ grant ∈ server.granted,
      grant.1 = MemoryNonceCache.key arrival.request.deviceId captured.nonce →
        grant.2 + 2 * maxSkew < arrival.now)
    (ledger : nonces.Ledger arrival.now (server.granted ++
      [(MemoryNonceCache.key arrival.request.deviceId captured.nonce, arrival.now)])) :
    Tracks ⟨nonces, arrival.now,
      server.handled ++ [⟨captured, row, arrival.request.deviceId, arrival.now⟩]⟩ := by
  refine ⟨by simpa [granted] using ledger, ?_, ?_⟩
  · simpa [or_imp, forall_and] using ⟨tracks.inWindow, window⟩
  · rw [AtMostOnce, List.map_append, List.map_singleton]
    refine tracks.atMostOnce.append (List.nodup_singleton _) (List.disjoint_singleton.mpr ?_)
    intro member
    obtain ⟨past, inLog, same⟩ := List.mem_map.mp member
    obtain ⟨sameCaptured, sameRow⟩ := Prod.mk.inj same
    have spelling := alike past inLog (by rw [copy, sameCaptured]) (by rw [named, sameRow])
    have expired := old _ (List.mem_map_of_mem inLog) (by simp [spelling, sameCaptured])
    have before := tracks.inWindow past inLog
    rw [sameCaptured] at before
    simp only [InWindow] at before window expired
    omega

theorem Tracks.step (tracks : server.Tracks) (alike : server.SpelledAlike arrival)
    (taken : server.step keys arrival = some next) : next.Tracks := by
  simp only [Server.step, Option.ite_none_right_eq_some, Option.some.injEq] at taken
  obtain ⟨later, rfl⟩ := taken
  have ledger := tracks.ledger.claim later arrival.request.deviceId arrival.request.nonce
  have served := served_signed keys arrival.db server.nonces arrival.request arrival.now
  simp only [serve]
  generalize signed keys arrival.db server.nonces arrival.request arrival.now = outcome at served
  cases served with
  | turnedAway status code detail => exact tracks.unhandled (tracks.ledger.later later)
  | replayed status code detail after refused =>
      rw [refused] at ledger
      rcases ledger with ⟨granted, -⟩ | ⟨-, -, ledger⟩
      · contradiction
      · exact tracks.unhandled ledger
  | handled dev timestampMs after named parsed window granted =>
      rw [granted] at ledger
      rcases ledger with ⟨-, old, ledger⟩ | ⟨refused, -⟩
      · have captured : arrival.request.captured = some ⟨arrival.request.method,
            arrival.request.path, arrival.request.body, timestampMs, arrival.request.nonce,
            arrival.request.signature⟩ := by simp [Request.captured, parsed]
        simp only [captured]
        apply tracks.handle alike captured named window old
        simpa only [granted] using ledger
      · contradiction

theorem tracks_start (clock : Int) : (start clock).Tracks :=
  ⟨MemoryNonceCache.ledger_new clock, by simp [start], List.nodup_nil⟩

def sampleKeys : Keyring := fun sealedBytes _ _ _ => some sealedBytes

def sampleDatabase : Database where
  device := [{
    id := 0x0a1b2c3d00004000800000000000000f, orgId := 2, mode := .entry, state := .active
    keyVersion := 1, secretEnc := some [1, 2, 3], secretNonce := some [], secretKeyId := some "k1"
    prevKeyVersion := none, prevSecretEnc := none, prevSecretNonce := none, prevSecretKeyId := none
    lastAckSeq := 0, lastBufferDepth := none }]
  person := []
  credential := []
  deviceSlot := []
  punchEvent := []
  syncBatch := []
  nextEventId := 1

def sampleRequest (deviceId : String) : Request where
  method := "POST"
  path := "/v1/device/events"
  body := []
  deviceId := deviceId
  keyVersion := ""
  timestamp := "1000000"
  nonce := "n1"
  signature :=
    sign [1, 2, 3] "POST" "/v1/device/events" (unixMilli (1000000 * millisecond)) "n1" []
  requestId := ""

theorem parse_sampleRequest {deviceId : String} :
    parseInt (sampleRequest deviceId).timestamp = some 1000000 := by
  change parseInt "1000000" = some 1000000
  decide

theorem extract_sampleRequest {deviceId : String} (present : deviceId ≠ "") :
    extract (sampleRequest deviceId) = .ok ⟨deviceId, 1, 1000000 * millisecond, "n1",
      (sampleRequest deviceId).signature, ""⟩ := by
  have headers : ¬ ((sampleRequest deviceId).deviceId = "" ∨ (sampleRequest deviceId).nonce = "" ∨
      (sampleRequest deviceId).signature = "" ∨ (sampleRequest deviceId).timestamp = "") := by
    simp [present, sampleRequest, sign_ne_empty]
  rw [extract, if_neg headers, parse_sampleRequest]
  rfl

def lowerCase : String := "0a1b2c3d-0000-4000-8000-00000000000f"

end Server

end Presence.Auth
