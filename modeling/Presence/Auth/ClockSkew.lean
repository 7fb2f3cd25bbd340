import Presence.Auth.Middleware
import Presence.Firmware.ClockTrust
import Presence.Firmware.FlatAnswer
import Presence.Firmware.WireText
import Presence.Go.EncodeJson

namespace Presence.Auth

open Presence.Data Presence.Data.JsonText Presence.Firmware Presence.Firmware.ClockTrust
open Presence.Firmware.NetLoop Presence.Go Presence.Postgres
open Presence.Gateway (Database Keyring)

/-! # A refused clock and its correction

The body the gateway answers a refusal with, what the terminal reads from it, and the
timestamp of the request after it.
-/

/-- `http.StatusText`, of the codes that `problem` is given. -/
def statusText : Nat → List UInt8
  | 400 => bytes "Bad Request"
  | 401 => bytes "Unauthorized"
  | 403 => bytes "Forbidden"
  | 404 => bytes "Not Found"
  | 413 => bytes "Request Entity Too Large"
  | 500 => bytes "Internal Server Error"
  | 501 => bytes "Not Implemented"
  | _ => []

structure Problem where
  type : List UInt8
  title : List UInt8
  status : Int
  code : List UInt8
  detail : List UInt8
  serverTimeMs : Int

def Problem.fields (p : Problem) : List EncodedField :=
  optionalString "type" p.type ++ ⟨"title", encodeString p.title⟩ :: ⟨"status", encodeInt p.status⟩ ::
    (optionalString "code" p.code ++ optionalString "detail" p.detail ++
      optionalInt "server_time_ms" p.serverTimeMs)

/-- The body that `problem` writes. -/
def problem (code : Nat) (errCode detail : String) (now : Int) : List UInt8 :=
  encode (Problem.fields
    ⟨[], statusText code, code, bytes errCode, bytes detail, unixMilli now⟩)

/-- What `handleClockSkew` looks for in the answer. -/
def serverTime (problemResponse : List UInt8) : Option Int :=
  parseJsonInt problemResponse (ascii "server_time_ms")

/-- `ts` in `addAuthHeaders`, given `time(nullptr)`. -/
def timestamp (terminal : Terminal) (systemSeconds : Int) : Int :=
  if terminal.nowEpochMs ≠ 0 then terminal.nowEpochMs else systemSeconds * 1000

/-- `X-Timestamp` -/
def timestampHeader (terminal : Terminal) (systemSeconds : Int) : String :=
  toString (timestamp terminal systemSeconds)

/-- A refusal, the correction it leads to and the request after that, by the server's
clock. -/
structure Retry where
  refused : Int
  corrected : Int
  signed : Int
  judged : Int
  /-- Counted by the RTC between the correction and the signature. -/
  seconds : Nat

namespace Retry

structure InOrder (retry : Retry) : Prop where
  corrected : retry.refused ≤ retry.corrected
  signed : retry.corrected ≤ retry.signed
  judged : retry.signed ≤ retry.judged

/-- One second per second, wherever in a second the RTC is when it is read. -/
def OnePerSecond (retry : Retry) : Prop :=
  retry.signed - retry.corrected - second < retry.seconds * second ∧
    retry.seconds * second < retry.signed - retry.corrected + second

/-- What happens to the terminal until it signs. -/
def events (retry : Retry) (problemResponse : List UInt8) : List Event :=
  [.unauthorized (serverTime problemResponse),
    .elapse ((retry.signed - retry.corrected) / millisecond).toNat retry.seconds]

end Retry

/-! ## The body -/

/-- A field with `omitempty`. -/
def textField (name : String) (safe : HtmlSafe (bytes name)) (s : List UInt8) (valid : HtmlSafe s) :
    List Field :=
  if s.isEmpty then [] else [plainField name safe (stringScalar s valid)]

theorem text_textField {name : String} (safe : HtmlSafe (bytes name)) {s : List UInt8}
    (valid : HtmlSafe s) :
    (optionalString name s).map EncodedField.text = (textField name safe s valid).map Field.text := by
  rw [optionalString, textField]
  split
  next => rfl
  next =>
    rw [List.map_singleton, List.map_singleton,
      text_plainField safe (encodeString_scalar valid)]

section

variable {code : Nat} {errCode detail : String} {now : Int}

theorem safe_statusText (code : Nat) : HtmlSafe (statusText code) := by
  unfold statusText
  split <;> exact List.all_eq_true.mp rfl

def problemFields (code : Nat) (safeCode : HtmlSafe (bytes errCode)) (safeDetail : HtmlSafe (bytes detail))
    (serverTimeMs : Nat) : List Field :=
  plainField "status" (safeName rfl) (natScalar code) ::
    (textField "code" (safeName rfl) (bytes errCode) safeCode ++
      textField "detail" (safeName rfl) (bytes detail) safeDetail ++
      [plainField "server_time_ms" (safeName rfl) (natScalar serverTimeMs)])

def titleField (code : Nat) : Field :=
  plainField "title" (safeName rfl) (stringScalar (statusText code) (safe_statusText code))

theorem encode_problem (safeCode : HtmlSafe (bytes errCode)) (safeDetail : HtmlSafe (bytes detail))
    (positive : 0 < unixMilli now) :
    problem code errCode detail now =
      render (flat (titleField code)
        (problemFields code safeCode safeDetail (unixMilli now).toNat)) ++ newline.text := by
  have noType : optionalString "type" [] = [] := rfl
  have hasTime : optionalInt "server_time_ms" (unixMilli now) =
      [⟨"server_time_ms", encodeInt (unixMilli now)⟩] := if_neg (by omega)
  apply encode_flat
  simp only [Problem.fields, noType, hasTime, List.nil_append, List.map_cons, List.map_append, List.map_nil,
    problemFields, titleField]
  rw [text_plainField _ (encodeString_scalar (safe_statusText code)),
    text_plainField _ (encodeInt_scalar (Int.natCast_nonneg code)),
    text_textField (safeName rfl) safeCode, text_textField (safeName rfl) safeDetail,
    text_plainField _ (encodeInt_scalar (Int.le_of_lt positive))]
  rfl

theorem plainNames_textField {name : String} {safe : HtmlSafe (bytes name)} {s : List UInt8}
    {valid : HtmlSafe s} : PlainNames (textField name safe s valid) := by
  rw [textField]
  split
  next => exact plainNames_nil
  next => exact plainNames_nil.cons

theorem plainNames_problem (safeCode : HtmlSafe (bytes errCode)) (safeDetail : HtmlSafe (bytes detail))
    (serverTimeMs : Nat) :
    PlainNames (titleField code :: problemFields code safeCode safeDetail serverTimeMs) :=
  ((plainNames_textField.append plainNames_textField).append plainNames_nil.cons).cons.cons

/-- The terminal finds the gateway's clock in every problem. -/
theorem serverTime_problem (safeCode : HtmlSafe (bytes errCode)) (safeDetail : HtmlSafe (bytes detail))
    (positive : 0 < unixMilli now) (fits : unixMilli now < 2 ^ 63) :
    serverTime (problem code errCode detail now) = some (unixMilli now) := by
  have plain := @plainNames_problem code errCode detail safeCode safeDetail (unixMilli now).toNat
  have found : (titleField code :: problemFields code safeCode safeDetail (unixMilli now).toNat).find?
      (fun field => spelling field.name == ascii "server_time_ms") =
        some (plainField "server_time_ms" (safeName rfl) (natScalar (unixMilli now).toNat)) := by
    simp only [problemFields, textField]
    cases (bytes errCode).isEmpty <;> cases (bytes detail).isEmpty <;> rfl
  have cast : ((unixMilli now).toNat : Int) = unixMilli now := Int.toNat_of_nonneg (Int.le_of_lt positive)
  rw [serverTime, encode_problem safeCode safeDetail positive,
    parseJsonInt_flat newline (by decide +kernel) plain found rfl (by omega), cast]

end

/-! ## The clock after it -/

/-- Either branch leaves a clock that showed the server's time within the second, and
counts on from there. -/
theorem nowEpochMs_corrected (terminal : Terminal) {serverMs : Int} (positive : 0 ≤ serverMs)
    (before : serverMs / 1000 < 2 ^ 32) {retry : Retry} {problemResponse : List UInt8}
    {ready : Terminal} (found : serverTime problemResponse = some serverMs)
    (ran : run Terminal.step terminal (retry.events problemResponse) = some ready) :
    ∃ base, serverMs - 1000 < base ∧ base ≤ serverMs ∧
      ready.nowEpochMs = base + retry.seconds * 1000 := by
  rw [Retry.events, found] at ran
  cases ran
  simp only [Terminal.handleClockSkew]
  split
  next far =>
    -- the RTC takes the server's time, cut to the second
    have whole : ((serverMs.tdiv 1000) % 2 ^ 32).toNat = serverMs / 1000 := by
      rw [Int.tdiv_eq_ediv_of_nonneg positive]
      omega
    refine ⟨serverMs / 1000 * 1000, by omega, by omega, ?_⟩
    simp only [Terminal.nowEpochMs, Terminal.adjust, if_true, Nat.cast_add, whole]
    omega
  next near =>
    refine ⟨serverMs, by omega, Int.le_refl _, ?_⟩
    simp only [Terminal.nowEpochMs, if_true, Nat.cast_add]
    omega

theorem unixMilli_of_range {instant : Int} (low : 0 ≤ instant) (high : instant < 2 ^ 63) :
    unixMilli instant = instant / millisecond := by
  have divided : 0 ≤ instant / millisecond ∧ instant / millisecond ≤ instant := by
    rw [millisecond]
    omega
  exact Int.bmod_eq_of_le (by omega) (by omega)

theorem verify_ne_clockSkew {creds : Credentials} {now : Int} {nonces : MemoryNonceCache}
    {candidates : Secrets} {method path : String} {body : List UInt8}
    (window : creds.timestamp - maxSkew ≤ now ∧ now ≤ creds.timestamp + maxSkew) :
    (verify creds now method path body nonces candidates).1 ≠ .error .clockSkew := by
  let call : VerifyCall := ⟨creds, now, method, path, body, candidates⟩
  have near := (@VerifyCall.inWindow_iff call).mp window
  change (call.verify nonces).1 ≠ _
  simp only [VerifyCall.verify, verify, if_neg near]
  split
  next => simp
  next =>
    split
    next => simp
    next =>
      simp only
      split <;> simp

/-- Only a clock that is off is answered with `clock_skew`. -/
theorem clock_skew_problem {keys : Keyring} {db : Database} {nonces : MemoryNonceCache} {request : Request}
    {now : Int} {status : Nat} {detail : Detail}
    (answered : (signed keys db nonces request now).1 = .problem status "clock_skew" detail) :
    status = 401 ∧ detail = .text "timestamp outside accepted window" := by
  simp only [signed] at answered
  split at answered
  next => simp at answered
  next =>
    split at answered
    next => simp at answered
    next =>
      split at answered
      iterate 3 next => simp at answered
      next =>
        simp only [respond] at answered
        split at answered <;> simp_all

/-- One refusal is enough: the request after it, judged within 298 seconds of the
refusal, is not refused for its clock. -/
theorem corrected_not_skewed (keys : Keyring) (db : Database) (nonces : MemoryNonceCache)
    (refused : Request) (retry : Retry) (terminal ready : Terminal) (status : Nat) (message : String)
    (answered : (signed keys db nonces refused retry.refused).1 =
      .problem status "clock_skew" (.text message))
    (since2000 : 946684800 * second ≤ retry.refused) (until2100 : retry.refused < 4102444800 * second)
    (inOrder : retry.InOrder) (onePerSecond : retry.OnePerSecond)
    (soon : retry.judged ≤ retry.refused + 298 * second)
    (ran : run Terminal.step terminal
      (retry.events (problem status "clock_skew" message retry.refused)) = some ready)
    (systemSeconds : Int) (request : Request) (creds : Credentials)
    (header : request.timestamp = timestampHeader ready systemSeconds)
    (read : extract request = .ok creds) (method path : String) (body : List UInt8)
    (held : MemoryNonceCache) (candidates : Secrets) :
    (verify creds retry.judged method path body held candidates).1 ≠ .error .clockSkew := by
  obtain ⟨-, told⟩ := clock_skew_problem answered
  cases told
  obtain ⟨corrected, signed, judged⟩ := inOrder
  obtain ⟨-, slow⟩ := onePerSecond
  simp only [second, millisecond] at since2000 until2100 soon slow
  have milli : unixMilli retry.refused = retry.refused / 1000000 :=
    unixMilli_of_range (by omega) (by omega)
  have found : serverTime (problem status "clock_skew" "timestamp outside accepted window" retry.refused) =
      some (unixMilli retry.refused) :=
    serverTime_problem (by decide +kernel) (by decide +kernel) (by omega) (by omega)
  obtain ⟨base, above, below, shown⟩ :=
    nowEpochMs_corrected terminal (by omega) (by omega) found ran
  -- what the terminal signs with, and what the gateway reads
  have signedWith : timestamp ready systemSeconds = base + retry.seconds * 1000 := by
    rw [timestamp, shown, if_pos (by omega)]
  obtain ⟨-, -, ms, parsed, same⟩ := extract_invert read
  rw [header, timestampHeader, signedWith, parseInt_toString (by omega) (by omega)] at parsed
  cases parsed
  apply verify_ne_clockSkew
  rw [same]
  simp only [maxSkew, second, millisecond]
  omega

/-! A terminal that has run since 1970, and a gateway in 2001. -/

def sampleRetry : Retry where
  refused := 1000000000 * second
  corrected := 1000000001 * second
  signed := 1000000002 * second
  judged := 1000000298 * second
  seconds := 1

theorem corrected_not_skewed_sample :
    (verify ⟨"d", 1, 1000000001000 * millisecond, "n", "s", ""⟩ (1000000298 * second) "GET" "/" []
      newMemoryNonceCache ∅).1 ≠ .error .clockSkew := by
  have answered : signed Server.sampleKeys Server.sampleDatabase newMemoryNonceCache
      (Server.sampleRequest Server.lowerCase) sampleRetry.refused =
        (.problem 401 "clock_skew" (.text "timestamp outside accepted window"), newMemoryNonceCache) := by
    let dev : Gateway.Device :=
      ⟨0x0a1b2c3d00004000800000000000000f, 2, .entry, AList.singleton 1 [1, 2, 3], 0⟩
    have named : uuidIn Server.lowerCase = some 0x0a1b2c3d00004000800000000000000f := by decide
    have loaded : Gateway.loadDevice Server.sampleKeys Server.sampleDatabase Server.lowerCase = .ok dev := by
      simp only [Gateway.loadDevice, named]
      rfl
    exact signed_of_verify (Nat.zero_le _) (Server.extract_sampleRequest (by decide)) loaded
      (if_pos (by decide))
  have found : serverTime (problem 401 "clock_skew" "timestamp outside accepted window" sampleRetry.refused) =
      some 1000000000000 :=
    serverTime_problem (by decide +kernel) (by decide +kernel) (by decide) (by decide)
  have ran : run Terminal.step (.fresh 7) (sampleRetry.events
      (problem 401 "clock_skew" "timestamp outside accepted window" sampleRetry.refused)) =
        run Terminal.step (.fresh 7) [.unauthorized (some 1000000000000), .elapse 1000 1] := by
    rw [Retry.events, found]
    rfl
  exact corrected_not_skewed Server.sampleKeys Server.sampleDatabase newMemoryNonceCache
    (Server.sampleRequest Server.lowerCase) sampleRetry (.fresh 7) _ 401 _
    (congrArg Prod.fst answered) (by decide) (by decide) ⟨by decide, by decide, by decide⟩
    ⟨by decide, by decide⟩ (by decide) (ran.trans rfl) 0
    ⟨"GET", "/", [], "d", "", "1000000001000", "n", "s", ""⟩ _ (by decide) rfl "GET" "/" [] newMemoryNonceCache ∅

end Presence.Auth
