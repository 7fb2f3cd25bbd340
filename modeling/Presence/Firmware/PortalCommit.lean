import Presence.Firmware.WifiPortal

namespace Presence.Firmware

open Presence.Data

/-! # What the portal stores

The portal over its two stores.  A save may be refused, or lost although it returns
true; a load may fail; and the power may be cut between any two calls.
-/

structure PortalStores where
  wifi : Option WifiCredentials
  token : Option ProvisionTokenRecord
deriving DecidableEq

/-- What a store makes of a call: whether it succeeds, as far as the caller can tell, and
whether a record that was passed to it is there afterwards. -/
structure StoreOutcome where
  returned : Bool
  kept : Bool

def PortalStores.perform (stores : PortalStores) :
    StoreCall → StoreOutcome → Bool × PortalStores
  | .saveToken r, outcome =>
      (outcome.returned, if outcome.kept then { stores with token := some r } else stores)
  | .readBackToken r, outcome => (outcome.returned && stores.token == some r, stores)
  | .saveWifi c, outcome =>
      (outcome.returned, if outcome.kept then { stores with wifi := some c } else stores)
  | .readBackWifi c, outcome => (outcome.returned && stores.wifi == some c, stores)

structure PortalSystem where
  task : PortalTask
  stores : PortalStores
  /-- The request in hand, and the stores as it found them. -/
  parsed : HttpParse
  req : HttpRequest
  before : PortalStores

inductive PortalEvent where
  | act (input : PortalInput)
  /-- The store that was called returns. -/
  | store (outcome : StoreOutcome)

namespace PortalSystem

def step (system : PortalSystem) : PortalEvent → Option PortalSystem
  | .act (.request parsed req nowMs) =>
      match system.task.handling with
      | none =>
          some { system with
            task := (system.task.act (.request parsed req nowMs)).1
            parsed, req
            before := system.stores }
      | some _ => none
  | .act (.returned _) => none
  | .act input => some { system with task := (system.task.act input).1 }
  | .store outcome =>
      match system.task.handling with
      | some (.call call _) =>
          let (result, stores) := system.stores.perform call outcome
          some { system with task := (system.task.act (.returned result)).1, stores }
      | _ => none

end PortalSystem

/-! ## What is promised -/

/-- A form that was sent to `/save` while the portal was open. -/
structure Saving (portal : WifiPortal) (parsed : HttpParse) (req : HttpRequest) : Prop where
  parsed : parsed = .ok
  method : req.method = ascii "POST"
  path : req.path = ascii "/save"
  state : portal.state = .«open»

/-- The form has a token for the store. -/
def WifiPortal.WritesToken (portal : WifiPortal) (form : WifiForm) : Prop :=
  ¬ (portal.tokenField = .hidden ∨
    (trimSpaces form.token).isEmpty ∧ portal.tokenField = .optional)

def TokenStored (portal : WifiPortal) (form : WifiForm) (stores : PortalStores) : Prop :=
  portal.WritesToken form →
    ∃ tok, makeTokenRecord form.token = (.ok, tok) ∧ stores.token = some tok

/-- The first digit of the status. -/
def statusClass (response : List UInt8) : Option UInt8 :=
  (response.drop (ascii "HTTP/1.1 ").length).head?

/-- An answer with a status of 400 to 499. -/
def ClientError (response : List UInt8) : Prop := statusClass response = some '4'.toUInt8

/-- When a call may be made. -/
def MayCall (portal : WifiPortal) (parsed : HttpParse) (req : HttpRequest) (stores : PortalStores)
    (call : StoreCall) : Prop :=
  Saving portal parsed req ∧ ∀ creds, call = .saveWifi creds → ∃ form,
    parseWifiForm req.body = (.ok, form) ∧
      makeCredentials form.ssid form.password = (.ok, creds) ∧ TokenStored portal form stores

/-- How a request may end. -/
def MayEnd (portal : WifiPortal) (req : HttpRequest) (before stores : PortalStores)
    (result : List UInt8 × WifiPortal) : Prop :=
  (result.2.state = .saved → portal.state = .saved ∨ ∃ form creds,
    parseWifiForm req.body = (.ok, form) ∧
      makeCredentials form.ssid form.password = (.ok, creds) ∧ stores.wifi = some creds ∧
        TokenStored portal form stores) ∧
  (ClientError result.1 → stores = before)

/-! ## One request -/

theorem statusClass_httpResponse {status : Nat} {digit : UInt8} {digits : List UInt8}
    (text : stdToString status = digit :: digits) (reason body : List UInt8) (includeBody : Bool)
    (extraHeaders : List UInt8) :
    statusClass (httpResponse status reason body includeBody extraHeaders) = some digit := by
  rw [statusClass, httpResponse, text]
  simp only [List.append_assoc, List.drop_left, List.cons_append, List.head?_cons]

section Request

variable {portal : WifiPortal} {parsed : HttpParse} {req : HttpRequest} {before : PortalStores}

theorem unchanged_meets (response : List UInt8) :
    Calling.Meets PortalStores.perform (MayCall portal parsed req) (MayEnd portal req before) before
      (.done (response, portal)) :=
  ⟨.inl, fun _ => rfl⟩

theorem finish_meets {stores : PortalStores} {form : WifiForm} {creds : WifiCredentials}
    (accepted : parseWifiForm req.body = (.ok, form))
    (made : makeCredentials form.ssid form.password = (.ok, creds)) {stored : Bool}
    (recorded : stored = true → stores.wifi = some creds ∧ TokenStored portal form stores)
    (prefill : List UInt8) (nowMs : UInt32) :
    Calling.Meets PortalStores.perform (MayCall portal parsed req) (MayEnd portal req before) stores
      (portal.finish form prefill nowMs stored) := by
  have noError {status : Nat} {digit : UInt8} (text : stdToString status = digit :: ascii "00")
      (other : digit ≠ '4'.toUInt8) (reason body : List UInt8) :
      ¬ ClientError (httpResponse status reason body true []) := by
    rw [ClientError, statusClass_httpResponse text]
    exact fun same => other (Option.some.inj same)
  cases stored with
  | true =>
      obtain ⟨wifi, token⟩ := recorded rfl
      have ok : stdToString 200 = '2'.toUInt8 :: ascii "00" := by decide +kernel
      exact ⟨fun _ => .inr ⟨form, creds, accepted, made, wifi, token⟩,
        fun error => absurd error (noError ok (by decide) _ _)⟩
  | false =>
      have failed : stdToString 500 = '5'.toUInt8 :: ascii "00" := by decide +kernel
      exact ⟨.inl, fun error => absurd error (noError failed (by decide) _ _)⟩

theorem storeWifi_meets {stores : PortalStores} {form : WifiForm} {creds : WifiCredentials}
    (saving : Saving portal parsed req) (accepted : parseWifiForm req.body = (.ok, form))
    (made : makeCredentials form.ssid form.password = (.ok, creds)) {stored : Bool}
    (token : stored = true → TokenStored portal form stores) (prefill : List UInt8)
    (nowMs : UInt32) :
    Calling.Meets PortalStores.perform (MayCall portal parsed req) (MayEnd portal req before) stores
      (portal.storeWifi form prefill nowMs creds stored) := by
  rw [WifiPortal.storeWifi]
  split
  · case isTrue ready =>
      have stored := token (Bool.and_eq_true_iff.mp ready).1
      refine ⟨⟨saving, ?_⟩, fun outcome => ?_⟩
      · rintro _ ⟨⟩
        exact ⟨form, accepted, made, stored⟩
      · have kept : TokenStored portal form (stores.perform (.saveWifi creds) outcome).2 := by
          rw [PortalStores.perform]
          split <;> exact stored
        dsimp only
        split
        · refine ⟨⟨saving, nofun⟩, fun outcome => finish_meets accepted made (fun same => ?_) _ _⟩
          exact ⟨eq_of_beq (Bool.and_eq_true_iff.mp same).2, kept⟩
        · refine finish_meets accepted made ?_ _ _
          exact nofun
  · case isFalse =>
      refine finish_meets accepted made ?_ _ _
      exact nofun

theorem storeToken_meets {stores : PortalStores} {form : WifiForm} {creds : WifiCredentials}
    {tok : ProvisionTokenRecord} (saving : Saving portal parsed req)
    (accepted : parseWifiForm req.body = (.ok, form))
    (made : makeCredentials form.ssid form.password = (.ok, creds))
    (token : makeTokenRecord form.token = (.ok, tok)) (prefill : List UInt8) (nowMs : UInt32) :
    Calling.Meets PortalStores.perform (MayCall portal parsed req) (MayEnd portal req before) stores
      (portal.storeToken form prefill nowMs creds tok) := by
  rw [WifiPortal.storeToken]
  split
  · refine ⟨⟨saving, nofun⟩, fun outcome => ?_⟩
    dsimp only
    split
    · refine ⟨⟨saving, nofun⟩, fun outcome => ?_⟩
      refine storeWifi_meets saving accepted made (fun same _ => ⟨tok, token, ?_⟩) _ _
      exact eq_of_beq (Bool.and_eq_true_iff.mp same).2
    · refine storeWifi_meets saving accepted made ?_ _ _
      exact nofun
  · refine storeWifi_meets saving accepted made ?_ _ _
    exact nofun

theorem save_meets (parsedOk : parsed = .ok) (method : req.method = ascii "POST")
    (path : req.path = ascii "/save") (working : portal.state ≠ .idle ∧ portal.state ≠ .closed)
    (nowMs : UInt32) :
    Calling.Meets PortalStores.perform (MayCall portal parsed req) (MayEnd portal req before) before
      (portal.save req nowMs) := by
  rw [WifiPortal.save]
  split
  · exact unchanged_meets _
  · case isFalse unsaved =>
      have saving : Saving portal parsed req := by
        refine ⟨parsedOk, method, path, ?_⟩
        cases state : portal.state <;> simp_all
      rcases accepted : parseWifiForm req.body with ⟨fe, form⟩
      dsimp only
      split
      · exact unchanged_meets _
      · case isFalse formOk =>
          rw [not_ne_iff.mp formOk] at accepted
          rcases made : makeCredentials form.ssid form.password with ⟨ve, creds⟩
          dsimp only
          split
          · exact unchanged_meets _
          · case isFalse fieldsOk =>
              rw [not_ne_iff.mp fieldsOk] at made
              split
              · case isTrue ignored =>
                  refine storeWifi_meets saving accepted made (fun _ writes => ?_) _ _
                  exact absurd ignored writes
              · case isFalse =>
                  rcases token : makeTokenRecord form.token with ⟨te, tok⟩
                  dsimp only
                  split
                  · exact unchanged_meets _
                  · case isFalse tokenOk =>
                      rw [not_ne_iff.mp tokenOk] at token
                      exact storeToken_meets saving accepted made token _ _

theorem routePortal_save {method path : List UInt8} (routed : routePortal method path = .save) :
    method = ascii "POST" ∧ path = ascii "/save" := by
  simp only [routePortal] at routed
  split at routed
  · split at routed <;> cases routed
  split at routed
  · case isTrue isSave =>
      split at routed
      · case isTrue isPost => exact ⟨isPost, isSave⟩
      split at routed <;> cases routed
  split at routed <;> cases routed

theorem handle_meets (parsed : HttpParse) (req : HttpRequest) (nowMs : UInt32) :
    Calling.Meets PortalStores.perform (MayCall portal parsed req) (MayEnd portal req before) before
      (portal.handle parsed req nowMs) := by
  unfold WifiPortal.handle
  split
  · exact unchanged_meets _
  · case isFalse working =>
      cases parsed with
      | incomplete | bad | tooLarge => exact unchanged_meets _
      | ok =>
          dsimp only
          split
          · exact unchanged_meets _
          · exact unchanged_meets _
          · exact unchanged_meets _
          · exact unchanged_meets _
          · case h_5 routed =>
              obtain ⟨method, path⟩ := routePortal_save routed
              exact save_meets rfl method path (not_or.mp working) nowMs

end Request

/-! ## All requests -/

namespace PortalSystem

/-- Whatever the stores make of its calls, the request in hand keeps what is promised. -/
def Sound (system : PortalSystem) : Prop :=
  ∀ rest, system.task.handling = some rest →
    Calling.Meets PortalStores.perform (MayCall system.task.portal system.parsed system.req)
      (MayEnd system.task.portal system.req system.before) system.stores rest

/-- Everything an event can do. -/
theorem step_cases {system next : PortalSystem} {event : PortalEvent}
    (taken : system.step event = some next) :
    next = system ∨
    (∃ parsed req nowMs, next = { system with
      task := ⟨system.task.portal, some (system.task.portal.handle parsed req nowMs)⟩
      parsed, req
      before := system.stores }) ∨
    (∃ outcome call rest, event = .store outcome ∧
      system.task.handling = some (.call call rest) ∧ next = { system with
      task := ⟨system.task.portal, some (rest (system.stores.perform call outcome).1)⟩
      stores := (system.stores.perform call outcome).2 }) ∨
    (∃ response portal, event = .act .reply ∧
      system.task.handling = some (.done (response, portal)) ∧
      next = { system with task := ⟨portal, none⟩ }) ∨
    (∃ portal : WifiPortal, (portal.state = .saved → system.task.portal.state = .saved) ∧
      next = { system with task := ⟨portal, none⟩ }) := by
  cases event with
  | store outcome =>
      simp only [PortalSystem.step] at taken
      split at taken
      · case h_1 call rest calling =>
          cases taken
          refine .inr (.inr (.inl ⟨outcome, call, rest, rfl, calling, ?_⟩))
          simp only [PortalTask.act, calling]
      · cases taken
  | act input =>
      cases input with
      | request parsed req nowMs =>
          simp only [PortalSystem.step] at taken
          split at taken
          · case h_1 idle =>
              cases taken
              refine .inr (.inl ⟨parsed, req, nowMs, ?_⟩)
              simp only [PortalTask.act, idle]
          · cases taken
      | returned result => cases taken
      | reply =>
          cases taken
          simp only [PortalTask.act]
          split
          · case h_1 response portal done =>
              exact .inr (.inr (.inr (.inl ⟨response, portal, trivial, done, rfl⟩)))
          · exact .inl rfl
      | tick nowMs =>
          cases taken
          simp only [PortalTask.act]
          split
          · refine .inr (.inr (.inr (.inr ⟨_, ?_, rfl⟩)))
            rw [WifiPortal.tick]
            split
            · exact id
            split
            · intro impossible
              cases impossible
            · exact id
          · exact .inl rfl
      | begin nowMs origin =>
          cases taken
          simp only [PortalTask.act]
          split
          · refine .inr (.inr (.inr (.inr
              ⟨system.task.portal.begin nowMs origin, fun impossible => ?_, rfl⟩)))
            cases impossible
          · exact .inl rfl
      | setTokenField hasTokenStore mode =>
          cases taken
          simp only [PortalTask.act]
          split
          · exact .inr (.inr (.inr (.inr
              ⟨system.task.portal.setTokenField hasTokenStore mode, id, rfl⟩)))
          · exact .inl rfl
      | restart hasStore apSsid timeoutMs rebootDelayMs =>
          cases taken
          refine .inr (.inr (.inr (.inr
            ⟨.make hasStore apSsid timeoutMs rebootDelayMs, fun impossible => ?_, rfl⟩)))
          cases impossible

theorem Sound.step {system next : PortalSystem} {event : PortalEvent} (sound : system.Sound)
    (taken : system.step event = some next) : next.Sound := by
  intro rest handling
  rcases step_cases taken with rfl | ⟨parsed, req, nowMs, rfl⟩ |
    ⟨outcome, call, resume, -, calling, rfl⟩ | ⟨response, portal, -, -, rfl⟩ | ⟨portal, -, rfl⟩
  · exact sound rest handling
  · cases handling
    exact handle_meets parsed req nowMs
  · cases handling
    exact (sound _ calling).2 outcome
  · cases handling
  · cases handling

/-- What an event may change. -/
structure Keeps (system next : PortalSystem) (event : PortalEvent) : Prop where
  wifi : next.stores.wifi ≠ system.stores.wifi →
    Saving system.task.portal system.parsed system.req ∧ ∃ form creds,
      parseWifiForm system.req.body = (.ok, form) ∧ next.stores.wifi = some creds ∧
        credentialsUsable creds = true ∧ terminated creds.ssid = some form.ssid ∧
        terminated creds.password = some form.password
  token : ∀ creds rest, system.task.handling = some (.call (.saveWifi creds) rest) →
    system.task.portal.tokenField = .required → ∃ form tok,
      parseWifiForm system.req.body = (.ok, form) ∧ system.stores.token = some tok ∧
        tokenRecordUsable tok = true ∧
        terminated tok.token = some ((trimSpaces form.token).map lowerHex)
  saved : next.task.portal.state = .saved → system.task.portal.state ≠ .saved → ∃ form,
    parseWifiForm system.req.body = (.ok, form) ∧
      next.stores.wifi = some (makeCredentials form.ssid form.password).2 ∧
      (system.task.portal.WritesToken form →
        next.stores.token = some (makeTokenRecord form.token).2)
  clientError : ∀ response, event = .act .reply →
    (system.task.act .reply).2 = some response → ClientError response →
      next.stores = system.before
  quiet : system.task.portal.state ≠ .«open» → next.stores = system.stores

theorem Sound.token_stored {system : PortalSystem} (sound : system.Sound) {creds : WifiCredentials}
    {rest : Bool → Handling} (writing : system.task.handling = some (.call (.saveWifi creds) rest))
    (required : system.task.portal.tokenField = .required) : ∃ form tok,
      parseWifiForm system.req.body = (.ok, form) ∧ system.stores.token = some tok ∧
        tokenRecordUsable tok = true ∧
        terminated tok.token = some ((trimSpaces form.token).map lowerHex) := by
  obtain ⟨form, accepted, -, stored⟩ := (sound _ writing).1.2 creds rfl
  have writes : system.task.portal.WritesToken form := by simp [WifiPortal.WritesToken, required]
  obtain ⟨tok, made, kept⟩ := stored writes
  have madeOk : (makeTokenRecord form.token).1 = .ok := by rw [made]
  have usable := tokenRecordUsable_makeTokenRecord madeOk
  have text := terminated_makeTokenRecord madeOk
  rw [made] at usable text
  exact ⟨form, tok, accepted, kept, usable, text⟩

theorem Sound.client_error {system : PortalSystem} (sound : system.Sound) {response : List UInt8}
    (replied : (system.task.act .reply).2 = some response) (error : ClientError response) :
    system.stores = system.before := by
  simp only [PortalTask.act] at replied
  split at replied
  · case h_1 _ portal done =>
      cases replied
      exact (sound _ done).2 error
  · cases replied

theorem Sound.keeps {system next : PortalSystem} {event : PortalEvent} (sound : system.Sound)
    (taken : system.step event = some next) : system.Keeps next event := by
  have token := fun creds rest writing required =>
    @Sound.token_stored system sound creds rest writing required
  have clientError := fun response (_ : event = .act .reply) replied error =>
    @Sound.client_error system sound response replied error
  rcases step_cases taken with rfl | ⟨parsed, req, nowMs, rfl⟩ |
    ⟨outcome, call, resume, rfl, calling, rfl⟩ | ⟨response, portal, -, done, rfl⟩ |
    ⟨portal, unsaved, rfl⟩
  · exact ⟨fun changed => absurd rfl changed, token, fun saved unsaved => absurd saved unsaved,
      clientError, fun _ => rfl⟩
  · exact ⟨fun changed => absurd rfl changed, token, fun saved unsaved => absurd saved unsaved,
      clientError, fun _ => rfl⟩
  · obtain ⟨⟨saving, written⟩, -⟩ := sound _ calling
    refine ⟨fun changed => ⟨saving, ?_⟩, token, fun saved unsaved => absurd saved unsaved, nofun,
      fun closed => absurd saving.state closed⟩
    cases call with
    | saveToken r =>
        exact absurd (by simp only [PortalStores.perform]; split <;> rfl) changed
    | readBackToken r => exact absurd rfl changed
    | readBackWifi c => exact absurd rfl changed
    | saveWifi creds =>
        obtain ⟨form, accepted, made, -⟩ := written creds rfl
        have madeOk : (makeCredentials form.ssid form.password).1 = .ok := by rw [made]
        have usable := credentialsUsable_makeCredentials madeOk
        obtain ⟨-, ssid, password⟩ := makeCredentials_ok madeOk
        rw [made] at usable ssid password
        refine ⟨form, creds, accepted, ?_, usable, ssid, password⟩
        simp only [PortalStores.perform] at changed ⊢
        split
        · rfl
        · case isFalse lost => exact absurd (by rw [if_neg lost]) changed
  · refine ⟨fun changed => absurd rfl changed, token, fun saved unsaved => ?_, clientError,
      fun _ => rfl⟩
    obtain ⟨form, creds, accepted, made, wifi, stored⟩ :=
      ((sound _ done).1 saved).resolve_left unsaved
    refine ⟨form, accepted, by rw [made]; exact wifi, fun writes => ?_⟩
    obtain ⟨tok, madeToken, kept⟩ := stored writes
    rw [madeToken]
    exact kept
  · exact ⟨fun changed => absurd rfl changed, token,
      fun saved before => absurd (unsaved saved) before, clientError, fun _ => rfl⟩

/-- The portal stores the token first and the credentials last, and only what is valid. -/
theorem portal_commits {start : PortalSystem} (idle : start.task.handling = none)
    (events : List PortalEvent) :
    Along PortalSystem.step
      (fun system event => ∀ next, system.step event = some next → system.Keeps next event)
      start events := by
  have sound : start.Sound := by
    intro rest handling
    simp [idle] at handling
  have keeps : ∀ system event, Sound system → True → ∀ next,
      system.step event = some next → system.Keeps next event :=
    fun system event sound _ next taken => sound.keeps taken
  exact along_of_invariant (fun system event next sound _ taken => sound.step taken) keeps sound
    fun _ _ => trivial

/-- A terminal in its box, with its portal open. -/
def unprovisioned : PortalSystem :=
  { task := ⟨((WifiPortal.make true (ascii "presence-0A0B0C") 900000 1500).setTokenField true
      .required).begin 0 (ascii "http://192.168.4.1/"), none⟩
    stores := ⟨none, none⟩
    parsed := .incomplete
    req := ⟨[], [], []⟩
    before := ⟨none, none⟩ }

/-- The form is sent twice; the first time a token is lost although its save returns true. -/
def setupVisit : List PortalEvent :=
  let form := ascii "ssid=office&password=&token=+" ++ List.replicate 64 'A'.toUInt8
  let send := .act (.request .ok ⟨ascii "POST", ascii "/save", form⟩ 5)
  [send, .store ⟨true, false⟩, .store ⟨true, false⟩, .act .reply,
    send, .store ⟨true, true⟩, .store ⟨true, true⟩, .store ⟨true, true⟩, .store ⟨true, true⟩,
    .act .reply, .act (.tick 2000)]

theorem portal_commits_sample :
    (run PortalSystem.step unprovisioned setupVisit).map (·.task.portal.state) = some .saved ∧
      Along PortalSystem.step
        (fun system event => ∀ next, system.step event = some next → system.Keeps next event)
        unprovisioned setupVisit :=
  ⟨by decide +kernel, portal_commits rfl setupVisit⟩

end PortalSystem

end Presence.Firmware
