import Presence.Data.Calling
import Presence.Data.Run
import Presence.Firmware.HttpRequest
import Presence.Firmware.PortalPages
import Presence.Firmware.WifiForm

namespace Presence.Firmware

open Presence.Data

/-! # The setup portal

`WifiPortal` of `wifi_provision.h`.  A request is answered after a few calls of the
two stores, and the power may be cut between any two of them.
-/

inductive PortalRoute where
  | form
  | save
  | redirect
  | notFound
  | methodNotAllowed
deriving DecidableEq

def routePortal (method path : List UInt8) : PortalRoute :=
  let get := method = ascii "GET" ∨ method = ascii "HEAD"
  if path = ascii "/" then if get then .form else .methodNotAllowed
  else if path = ascii "/save" then
    if method = ascii "POST" then .save else if get then .redirect else .methodNotAllowed
  else if get then .redirect
  else .notFound

inductive PortalState where
  | idle
  | «open»
  | saved
  | closed
deriving DecidableEq

inductive PortalAction where
  | none
  | reboot
  | close
deriving DecidableEq

structure WifiPortal where
  /-- Whether there is a store for the credentials, and one for the token. -/
  hasStore : Bool
  hasTokenStore : Bool
  tokenField : TokenField
  apSsid : List UInt8
  origin : List UInt8
  savedSsid : List UInt8
  timeoutMs : UInt32
  rebootDelayMs : UInt32
  startMs : UInt32
  savedMs : UInt32
  state : PortalState
deriving DecidableEq

/-- A call of a store.  A record is read back to be compared with the one written. -/
inductive StoreCall where
  | saveToken (r : ProvisionTokenRecord)
  | readBackToken (r : ProvisionTokenRecord)
  | saveWifi (c : WifiCredentials)
  | readBackWifi (c : WifiCredentials)
deriving DecidableEq

/-- A request being handled.  It ends with the response and the portal after it. -/
abbrev Handling := Calling StoreCall Bool (List UInt8 × WifiPortal)

namespace WifiPortal

def make (hasStore : Bool) (apSsid : List UInt8) (timeoutMs rebootDelayMs : UInt32) : WifiPortal :=
  ⟨hasStore, false, .hidden, apSsid, [], [], timeoutMs, rebootDelayMs, 0, 0, .idle⟩

def begin (portal : WifiPortal) (nowMs : UInt32) (origin : List UInt8) : WifiPortal :=
  { portal with startMs := nowMs, origin, state := .«open» }

def setTokenField (portal : WifiPortal) (hasTokenStore : Bool) (mode : TokenField) : WifiPortal :=
  { portal with hasTokenStore, tokenField := mode }

/-- The form again, with an error. -/
def formAgain (portal : WifiPortal) (prefillSsid error : List UInt8) : List UInt8 :=
  portalFormPage portal.apSsid prefillSsid error portal.tokenField

/-- The last part of `save`. -/
def finish (portal : WifiPortal) (form : WifiForm) (prefill : List UInt8) (nowMs : UInt32)
    (stored : Bool) : Handling :=
  if stored then
    .done (httpResponse 200 (ascii "OK") (portalSavedPage form.ssid) true [],
      { portal with savedSsid := form.ssid, savedMs := nowMs, state := .saved })
  else
    .done (httpResponse 500 (ascii "Internal Server Error")
      (portal.formAgain prefill (ascii "The terminal could not store the settings. Try again."))
      true [], portal)

/-- Wi-Fi last. -/
def storeWifi (portal : WifiPortal) (form : WifiForm) (prefill : List UInt8) (nowMs : UInt32)
    (creds : WifiCredentials) (stored : Bool) : Handling :=
  if stored && portal.hasStore then
    .call (.saveWifi creds) fun stored =>
      if stored then .call (.readBackWifi creds) (portal.finish form prefill nowMs)
      else portal.finish form prefill nowMs false
  else portal.finish form prefill nowMs false

/-- Token first. -/
def storeToken (portal : WifiPortal) (form : WifiForm) (prefill : List UInt8) (nowMs : UInt32)
    (creds : WifiCredentials) (tok : ProvisionTokenRecord) : Handling :=
  if portal.hasTokenStore then
    .call (.saveToken tok) fun stored =>
      if stored then .call (.readBackToken tok) (portal.storeWifi form prefill nowMs creds)
      else portal.storeWifi form prefill nowMs creds false
  else portal.storeWifi form prefill nowMs creds false

def save (portal : WifiPortal) (req : HttpRequest) (nowMs : UInt32) : Handling :=
  if portal.state = .saved then
    .done (httpResponse 200 (ascii "OK") (portalSavedPage portal.savedSsid) true [], portal)
  else
    let badRequest (prefill error : List UInt8) : Handling :=
      .done (httpResponse 400 (ascii "Bad Request") (portal.formAgain prefill error) true [],
        portal)
    let (fe, form) := parseWifiForm req.body
    if fe ≠ .ok then badRequest [] (formErrorText fe)
    else
      let prefill :=
        if validateSsid form.ssid = .ssidBadByte then [] else form.ssid.take kWifiSsidMaxBytes
      let (ve, creds) := makeCredentials form.ssid form.password
      if ve ≠ .ok then badRequest prefill (wifiFieldErrorText ve)
      else
        let empty := (trimSpaces form.token).isEmpty
        if portal.tokenField = .hidden ∨ empty ∧ portal.tokenField = .optional then
          portal.storeWifi form prefill nowMs creds true
        else
          let (te, tok) := makeTokenRecord form.token
          if te ≠ .ok then badRequest prefill (tokenErrorText te)
          else portal.storeToken form prefill nowMs creds tok

def handle (portal : WifiPortal) (parsed : HttpParse) (req : HttpRequest) (nowMs : UInt32) :
    Handling :=
  if portal.state = .idle ∨ portal.state = .closed then
    .done (httpResponse 503 (ascii "Service Unavailable")
      (portalPage (ascii "Closed") (ascii "<p>Setup is closed.</p>")) true [], portal)
  else
    match parsed with
    | .incomplete => .done (httpResponse 408 (ascii "Request Timeout") [] false [], portal)
    | .bad => .done (httpResponse 400 (ascii "Bad Request") [] false [], portal)
    | .tooLarge => .done (httpResponse 413 (ascii "Content Too Large") [] false [], portal)
    | .ok =>
        let head := req.method == ascii "HEAD"
        match routePortal req.method req.path with
        | .form =>
            let page :=
              if portal.state = .saved then portalSavedPage portal.savedSsid
              else portal.formAgain [] []
            .done (httpResponse 200 (ascii "OK") page (!head) [], portal)
        | .redirect =>
            let loc := ascii "Location: " ++ portal.origin ++ ascii "\r\n"
            .done (httpResponse 302 (ascii "Found") [] false (cString loc), portal)
        | .notFound => .done (httpResponse 404 (ascii "Not Found") [] false [], portal)
        | .methodNotAllowed =>
            let allow :=
              if req.path = ascii "/save" then ascii "Allow: POST\r\n"
              else ascii "Allow: GET, HEAD\r\n"
            .done (httpResponse 405 (ascii "Method Not Allowed") [] false allow, portal)
        | .save => portal.save req nowMs

def tick (portal : WifiPortal) (nowMs : UInt32) : PortalAction × WifiPortal :=
  if portal.state = .saved ∧ nowMs - portal.savedMs ≥ portal.rebootDelayMs then (.reboot, portal)
  else if portal.state = .«open» ∧ nowMs - portal.startMs ≥ portal.timeoutMs then
    (.close, { portal with state := .closed })
  else (.none, portal)

end WifiPortal

/-! ## The portal at work -/

/-- What happens to a portal.  A restart makes a new one, wherever the old one was. -/
inductive PortalInput where
  | request (parsed : HttpParse) (req : HttpRequest) (nowMs : UInt32)
  /-- What the store returns that was called. -/
  | returned (result : Bool)
  /-- The response is sent. -/
  | reply
  | tick (nowMs : UInt32)
  | begin (nowMs : UInt32) (origin : List UInt8)
  | setTokenField (hasTokenStore : Bool) (mode : TokenField)
  | restart (hasStore : Bool) (apSsid : List UInt8) (timeoutMs rebootDelayMs : UInt32)

/-- A portal, and how far it is with a request. -/
structure PortalTask where
  portal : WifiPortal
  handling : Option Handling

namespace PortalTask

/-- One request at a time; what cannot happen changes nothing. -/
def act (task : PortalTask) : PortalInput → PortalTask × Option (List UInt8)
  | .request parsed req nowMs =>
      match task.handling with
      | none => (⟨task.portal, some (task.portal.handle parsed req nowMs)⟩, none)
      | some _ => (task, none)
  | .returned result =>
      match task.handling with
      | some (.call _ next) => (⟨task.portal, some (next result)⟩, none)
      | _ => (task, none)
  | .reply =>
      match task.handling with
      | some (.done (response, portal)) => (⟨portal, none⟩, some response)
      | _ => (task, none)
  | .tick nowMs =>
      match task.handling with
      | none => (⟨(task.portal.tick nowMs).2, none⟩, none)
      | some _ => (task, none)
  | .begin nowMs origin =>
      match task.handling with
      | none => (⟨task.portal.begin nowMs origin, none⟩, none)
      | some _ => (task, none)
  | .setTokenField hasTokenStore mode =>
      match task.handling with
      | none => (⟨task.portal.setTokenField hasTokenStore mode, none⟩, none)
      | some _ => (task, none)
  | .restart hasStore apSsid timeoutMs rebootDelayMs =>
      (⟨.make hasStore apSsid timeoutMs rebootDelayMs, none⟩, none)

end PortalTask

end Presence.Firmware
