import Presence.Firmware.Digits

namespace Presence.Firmware

/-! # What a terminal is told it is

`parseProvisionResponse` reads the answer of `/provision`, `parseBenchSecretCommand`
a line typed on the bench.  Texts are bytes, and an index into a text is what lies
from it on.
-/

/-! ## The scanner of `events_json.h`

It looks for the key as a quoted token with a colon behind it.
-/

/-- `std::string hay(json)` stops at the first NUL. -/
def cString (json : List UInt8) : List UInt8 := json.takeWhile (· != 0)

def isJsonSpace (c : UInt8) : Bool :=
  c == ' '.toUInt8 || c == '\t'.toUInt8 || c == '\n'.toUInt8 || c == '\r'.toUInt8

/-- The search, with so many bytes of a token that was no key still to be passed. -/
def findJsonValue (needle : List UInt8) : Nat → List UInt8 → Option (List UInt8)
  | _, [] => none
  | skip + 1, _ :: rest => findJsonValue needle skip rest
  | 0, c :: rest =>
      if needle.isPrefixOf (c :: rest) then
        match ((c :: rest).drop needle.length).dropWhile isJsonSpace with
        | colon :: after =>
            if colon = ':'.toUInt8 then
              let value := after.dropWhile isJsonSpace
              if value.isEmpty then none else some value
            -- the token appeared as a value, not as a key
            else findJsonValue needle (needle.length - 1) rest
        | [] => findJsonValue needle (needle.length - 1) rest
      else findJsonValue needle 0 rest

def jsonValueStart (hay key : List UInt8) : Option (List UInt8) :=
  findJsonValue ('"'.toUInt8 :: key ++ ['"'.toUInt8]) 0 hay

def isDecimal (c : UInt8) : Bool := decide ('0'.toUInt8 ≤ c ∧ c ≤ '9'.toUInt8)

/-- An `int64_t` that overflows is taken to wrap around. -/
def wrapInt64 (value : Int) : Int := value.bmod (2 ^ 64)

def readInt64 (value : Int) : List UInt8 → Int
  | [] => value
  | c :: rest =>
      if isDecimal c then readInt64 (wrapInt64 (value * 10 + (c - '0'.toUInt8).toNat)) rest
      else value

/-- The search is written out again in the source. -/
def parseJsonInt (json key : List UInt8) : Option Int :=
  match jsonValueStart (cString json) key with
  | none => none
  | some [] => none
  | some (c :: rest) =>
      let negative := c == '-'.toUInt8
      let digits := if c == '-'.toUInt8 || c == '+'.toUInt8 then rest else c :: rest
      if digits.head?.any isDecimal then
        let value := readInt64 0 digits
        some (if negative then wrapInt64 (-value) else value)
      else none

/-- The loop behind the opening quote. -/
def readJsonString (maxLen : Nat) (value : List UInt8) : List UInt8 → Option (List UInt8)
  | [] => none
  | c :: rest =>
      if c = '"'.toUInt8 then some value
      else if c < 0x20 then none
      else if c = '\\'.toUInt8 then
        match rest with
        | [] => none
        | e :: rest =>
            if e = '"'.toUInt8 ∨ e = '\\'.toUInt8 ∨ e = '/'.toUInt8 then
              if (value ++ [e]).length > maxLen then none
              else readJsonString maxLen (value ++ [e]) rest
            else none
      else if (value ++ [c]).length > maxLen then none
      else readJsonString maxLen (value ++ [c]) rest

def parseJsonString (json key : List UInt8) (maxLen : Nat) : Option (List UInt8) :=
  match jsonValueStart (cString json) key with
  | none => none
  | some [] => none
  | some (c :: rest) => if c = '"'.toUInt8 then readJsonString maxLen [] rest else none

/-! ## Its parts -/

abbrev DeviceSecret := Vector UInt8 32

def kDeviceSecretBytes : Nat := 32

structure ProvisionResult where
  deviceId : List UInt8
  secret : DeviceSecret
  keyVersion : Int
  /-- Zero where a bench command says nothing of it. -/
  serverTimeMs : Int
deriving DecidableEq

def tokenHexDigit (c : UInt8) : Bool :=
  decide (('0'.toUInt8 ≤ c ∧ c ≤ '9'.toUInt8) ∨ ('a'.toUInt8 ≤ c ∧ c ≤ 'f'.toUInt8) ∨
    ('A'.toUInt8 ≤ c ∧ c ≤ 'F'.toUInt8))

def isUuidText (s : List UInt8) : Bool :=
  s.length == 36 && s.zipIdx.all fun (c, i) =>
    if i = 8 ∨ i = 13 ∨ i = 18 ∨ i = 23 then c == '-'.toUInt8 else tokenHexDigit c

def base64Value (c : UInt8) : Option UInt32 :=
  if 'A'.toUInt8 ≤ c ∧ c ≤ 'Z'.toUInt8 then some (c - 'A'.toUInt8).toUInt32
  else if 'a'.toUInt8 ≤ c ∧ c ≤ 'z'.toUInt8 then some ((c - 'a'.toUInt8).toUInt32 + 26)
  else if '0'.toUInt8 ≤ c ∧ c ≤ '9'.toUInt8 then some ((c - '0'.toUInt8).toUInt32 + 52)
  else if c = '+'.toUInt8 then some 62
  else if c = '/'.toUInt8 then some 63
  else none

/-- The bits of one group of four, and how many they are, up to its first pad. -/
def base64Bits (acc : UInt32) (bits : Nat) : List UInt8 → Option (UInt32 × Nat)
  | [] => some (acc, bits)
  | c :: rest =>
      if c = '='.toUInt8 then some (acc, bits)
      else
        match base64Value c with
        | none => none
        | some v => base64Bits ((acc <<< 6) ||| v) (bits + 6) rest

/-- The whole bytes of so many bits, the highest first. -/
def bitsBytes (acc : UInt32) : Nat → List UInt8
  | bits + 8 => (acc >>> UInt32.ofNat bits).toUInt8 :: bitsBytes acc bits
  | _ => []

/-- The loop over the groups.  Bits left over have to be zero. -/
def decodeGroups (out : List UInt8) : List UInt8 → Option (List UInt8)
  | a :: b :: c :: d :: rest =>
      match base64Bits 0 0 [a, b, c, d] with
      | none => none
      | some (acc, bits) =>
          if acc &&& ((1 <<< UInt32.ofNat (bits % 8)) - 1) = 0 then
            decodeGroups (out ++ bitsBytes acc bits) rest
          else none
  | _ => some out

/-- More bytes than asked for are refused as they come in the source, here at the end. -/
def decodeBase64Exact (text : List UInt8) (outLen : Nat) : Option (Vector UInt8 outLen) :=
  let want := (outLen + 2) / 3 * 4
  let pad := if outLen % 3 = 0 then 0 else 3 - outLen % 3
  if text.length ≠ want ∨ outLen = 0 then none
  else if text.zipIdx.any (fun (c, i) => decide (want - pad ≤ i) != (c == '='.toUInt8)) then none
  else
    match decodeGroups [] text with
    | none => none
    | some out => if size : out.length = outLen then some ⟨out.toArray, size⟩ else none

def nibble (c : UInt8) : Option UInt8 :=
  if '0'.toUInt8 ≤ c ∧ c ≤ '9'.toUInt8 then some (c - '0'.toUInt8)
  else if 'a'.toUInt8 ≤ c ∧ c ≤ 'f'.toUInt8 then some (c - 'a'.toUInt8 + 10)
  else if 'A'.toUInt8 ≤ c ∧ c ≤ 'F'.toUInt8 then some (c - 'A'.toUInt8 + 10)
  else none

def decodeHexPairs : List UInt8 → Option (List UInt8)
  | hi :: lo :: rest =>
      match nibble hi, nibble lo, decodeHexPairs rest with
      | some hi, some lo, some out => some ((hi <<< 4 ||| lo) :: out)
      | _, _, _ => none
  | _ => some []

def decodeHexExact (hex : List UInt8) (outLen : Nat) : Option (Vector UInt8 outLen) :=
  if hex.length = outLen * 2 then
    match decodeHexPairs hex with
    | none => none
    | some out => if size : out.length = outLen then some ⟨out.toArray, size⟩ else none
  else none

def int32Max : Int := 2 ^ 31 - 1

/-! ## The answer of the gateway -/

inductive ProvisionStatus where
  | ok
  | refused
  | retry
deriving DecidableEq

def classifyProvisionStatus (httpStatus : Int) : ProvisionStatus :=
  if httpStatus = 200 then .ok
  else if httpStatus = 401 ∨ httpStatus = 403 ∨ httpStatus = 409 then .refused
  else .retry

def parseProvisionResponse (json : List UInt8) : Option ProvisionResult :=
  match parseJsonString json (ascii "device_id") 36 with
  | none => none
  | some id =>
      if isUuidText id then
        match parseJsonString json (ascii "device_secret") 64 with
        | none => none
        | some text =>
            match decodeBase64Exact text kDeviceSecretBytes with
            | none => none
            | some secret =>
                match parseJsonInt json (ascii "key_version"),
                    parseJsonInt json (ascii "server_time_ms") with
                | some kv, some ts =>
                    if kv < 1 ∨ kv > int32Max ∨ ts ≤ 0 then none
                    else some ⟨id, secret, kv, ts⟩
                | _, _ => none
      else none

/-! ## The bench command -/

inductive BenchSecretParse where
  | notOurs
  | ok (result : ProvisionResult)
  | missingFields
  | extraFields
  | badDeviceId
  | badSecretLength
  | badSecretHex
  | badKeyVersion
deriving DecidableEq

def kVerb : List UInt8 := ascii "BENCH-SECRET"

def lowerHex (c : UInt8) : UInt8 :=
  if 'A'.toUInt8 ≤ c ∧ c ≤ 'F'.toUInt8 then c - 'A'.toUInt8 + 'a'.toUInt8 else c

/-- Decimal, without a sign or a leading zero; ten digits do not overflow. -/
def benchKeyVersion : List UInt8 → Option Int
  | [] => none
  | c :: rest =>
      if (c :: rest).length ≤ 10 ∧ c ≠ '0'.toUInt8 ∧ (c :: rest).all isDecimal then
        let kv := readInt64 0 (c :: rest)
        if kv < 1 ∨ kv > int32Max then none else some kv
      else none

/-- The fields are checked in this order, the key version last. -/
def benchSecretFields (id secret : List UInt8) (keyVersion : Option Int) : BenchSecretParse :=
  if !isUuidText id then .badDeviceId
  else if secret.length ≠ 2 * kDeviceSecretBytes then .badSecretLength
  else
    match decodeHexExact secret kDeviceSecretBytes, keyVersion with
    | none, _ => .badSecretHex
    | some _, none => .badKeyVersion
    | some secret, some kv => .ok ⟨id.map lowerHex, secret, kv, 0⟩

def parseBenchSecretCommand (line : List UInt8) : BenchSecretParse :=
  if kVerb.isPrefixOf line then
    let rest := line.drop kVerb.length
    if rest.head?.any (· != ' '.toUInt8) then .notOurs
    else
      match (rest.splitOn ' '.toUInt8).filter (!·.isEmpty) with
      | [] | [_] => .missingFields
      | [id, secret] => benchSecretFields id secret (some 1)
      | [id, secret, keyVersion] => benchSecretFields id secret (benchKeyVersion keyVersion)
      | _ => .extraFields
  else .notOurs

/-! ## What both let through -/

/-- The id is no empty text and the version an `int32_t`, so that NVS can say of each
whether it was stored. -/
structure ProvisionResult.WellFormed (result : ProvisionResult) : Prop where
  deviceId : result.deviceId.length = 36
  positive : 1 ≤ result.keyVersion
  bounded : result.keyVersion ≤ int32Max

theorem length_of_isUuidText {s : List UInt8} (uuid : isUuidText s = true) : s.length = 36 := by
  simp only [isUuidText, Bool.and_eq_true, beq_iff_eq] at uuid
  exact uuid.1

theorem parseProvisionResponse_wellFormed {json : List UInt8} {result : ProvisionResult}
    (parsed : parseProvisionResponse json = some result) : result.WellFormed := by
  simp only [parseProvisionResponse] at parsed
  split at parsed
  case h_1 => cases parsed
  case h_2 id _ =>
    split at parsed
    case isFalse => cases parsed
    case isTrue uuid =>
      split at parsed
      case h_1 => cases parsed
      case h_2 text _ =>
        split at parsed
        case h_1 => cases parsed
        case h_2 secret _ =>
          split at parsed
          case h_2 => cases parsed
          case h_1 kv ts _ _ =>
            split at parsed
            case isTrue => cases parsed
            case isFalse inRange =>
              have range : 1 ≤ kv ∧ kv ≤ int32Max := by omega
              cases parsed
              exact ⟨length_of_isUuidText uuid, range.1, range.2⟩

theorem benchKeyVersion_range {text : List UInt8} {kv : Int}
    (read : benchKeyVersion text = some kv) : 1 ≤ kv ∧ kv ≤ int32Max := by
  cases text with
  | nil => cases read
  | cons c rest =>
      simp only [benchKeyVersion] at read
      split at read
      case isFalse => cases read
      case isTrue =>
        split at read
        case isTrue => cases read
        case isFalse =>
          cases read
          omega

theorem benchSecretFields_wellFormed {id secret : List UInt8} {keyVersion : Option Int}
    {result : ProvisionResult} (inRange : ∀ kv ∈ keyVersion, 1 ≤ kv ∧ kv ≤ int32Max)
    (parsed : benchSecretFields id secret keyVersion = .ok result) : result.WellFormed := by
  simp only [benchSecretFields] at parsed
  split at parsed
  case isTrue => cases parsed
  case isFalse uuid =>
    split at parsed
    case isTrue => cases parsed
    case isFalse =>
      split at parsed
      case h_1 => cases parsed
      case h_2 => cases parsed
      case h_3 kv _ =>
        have range := inRange kv rfl
        have long : id.length = 36 := length_of_isUuidText (by simpa using uuid)
        cases parsed
        exact ⟨by simpa using long, range.1, range.2⟩

theorem parseBenchSecretCommand_wellFormed {line : List UInt8} {result : ProvisionResult}
    (parsed : parseBenchSecretCommand line = .ok result) : result.WellFormed := by
  unfold parseBenchSecretCommand at parsed
  split at parsed
  case isFalse => cases parsed
  case isTrue =>
    simp only at parsed
    split at parsed
    case isTrue => cases parsed
    case isFalse =>
      split at parsed
      case h_1 => cases parsed
      case h_2 => cases parsed
      case h_3 => exact benchSecretFields_wellFormed (by simp [int32Max]) parsed
      case h_4 => exact benchSecretFields_wellFormed (fun _ => benchKeyVersion_range) parsed
      case h_5 => cases parsed

end Presence.Firmware
