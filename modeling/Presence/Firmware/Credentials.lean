import Mathlib.Data.List.TakeWhile
import Presence.Data.Bytes
import Presence.Firmware.Provision

namespace Presence.Firmware

open Presence.Data

/-! # What the setup page stores

The records of the Wi-Fi credentials and of the provisioning token, as
`wifi_provision.h` and `provision.h` write them and check them at boot.
-/

/-! ## Fixed arrays -/

/-- `memcpy` to the start of an array that is long enough. -/
def memcpy {size : Nat} (target : Vector UInt8 size) (source : List UInt8) : Vector UInt8 size :=
  Vector.ofFn fun i => source.getD i target[i]

/-- What lies before the first NUL, where there is one. -/
def terminated {size : Nat} (field : Vector UInt8 size) : Option (List UInt8) :=
  if 0 ∈ field.toList then some (field.toList.takeWhile (· != 0)) else none

section Arrays

variable {size : Nat} {field : Vector UInt8 size} {text : List UInt8}

theorem toList_memcpy (fits : text.length ≤ size) :
    (memcpy (Vector.replicate size 0) text).toList =
      text ++ List.replicate (size - text.length) 0 := by
  apply List.ext_getElem
  · simp only [Vector.length_toList, List.length_append, List.length_replicate]
    omega
  · intro i bound _
    simp only [memcpy, Vector.getElem_toList, Vector.getElem_ofFn]
    rw [List.getD_eq_getElem?_getD]
    by_cases early : i < text.length
    · rw [List.getElem_append_left early, List.getElem?_eq_getElem early]
      rfl
    · rw [List.getElem_append_right (by omega), List.getElem?_eq_none (by omega),
        List.getElem_replicate]
      exact Vector.getElem_replicate (by omega)

theorem terminated_append {rest : List UInt8} (plain : 0 ∉ text)
    (bytes : field.toList = text ++ 0 :: rest) : terminated field = some text := by
  have nonzero : ∀ c ∈ text, (c != 0) = true := by
    intro c member
    exact bne_iff_ne.mpr fun same => plain (same ▸ member)
  rw [terminated, bytes, if_pos (by simp), List.takeWhile_append_of_pos nonzero]
  simp

theorem terminated_memcpy (fits : text.length < size) (plain : 0 ∉ text) :
    terminated (memcpy (Vector.replicate size 0) text) = some text := by
  obtain ⟨rest, more⟩ : ∃ rest, size - text.length = rest + 1 := ⟨size - text.length - 1, by omega⟩
  refine @terminated_append _ _ _ (List.replicate rest 0) plain ?_
  rw [toList_memcpy (by omega), more, List.replicate_succ]

end Arrays

/-! ## The credentials -/

def kWifiSsidMaxBytes : Nat := 32

def kWifiPassphraseMinBytes : Nat := 8

def kWifiPassphraseMaxBytes : Nat := 63

def kWifiPskHexChars : Nat := 64

structure WifiCredentials where
  magic : UInt32
  ssid : Vector UInt8 (kWifiSsidMaxBytes + 1)
  /-- Empty for an open network. -/
  password : Vector UInt8 (kWifiPskHexChars + 1)
deriving DecidableEq

def kWifiCredentialsMagic : UInt32 := 0x31464957

/-- A record that `memset` has cleared. -/
def WifiCredentials.zero : WifiCredentials := ⟨0, Vector.replicate _ 0, Vector.replicate _ 0⟩

inductive WifiFieldError where
  | ok
  | ssidMissing
  | ssidTooLong
  | ssidBadByte
  | passwordTooShort
  | passwordTooLong
  | passwordBadByte
  | passwordBadHex
deriving DecidableEq

def wifiFieldErrorText : WifiFieldError → List UInt8
  | .ok => []
  | .ssidMissing => ascii "Enter the network name."
  | .ssidTooLong => ascii "The network name can be at most 32 bytes."
  | .ssidBadByte => ascii "The network name contains a control character."
  | .passwordTooShort =>
      ascii "A Wi-Fi password is at least 8 characters. Leave it empty only for an open network."
  | .passwordTooLong =>
      ascii "The password can be at most 63 characters (or a 64-digit hex key)."
  | .passwordBadByte => ascii "The password can only use printable ASCII characters."
  | .passwordBadHex => ascii "A 64-character password must be a hex key (0-9, a-f)."

def validateSsid (s : List UInt8) : WifiFieldError :=
  if s.length = 0 then .ssidMissing
  else if s.length > kWifiSsidMaxBytes then .ssidTooLong
  else if s.any (fun c => c < 0x20 || c == 0x7F) then .ssidBadByte
  else .ok

def isHexDigit (c : UInt8) : Bool := tokenHexDigit c

def validatePassword (s : List UInt8) : WifiFieldError :=
  if s.length = 0 then .ok
  else if s.length < kWifiPassphraseMinBytes then .passwordTooShort
  else if s.length = kWifiPskHexChars then
    if s.any (fun c => !isHexDigit c) then .passwordBadHex else .ok
  else if s.length > kWifiPassphraseMaxBytes then .passwordTooLong
  else if s.any (fun c => c < 0x20 || c > 0x7E) then .passwordBadByte
  else .ok

def makeCredentials (ssid password : List UInt8) : WifiFieldError × WifiCredentials :=
  let e := validateSsid ssid
  let e := if e = .ok then validatePassword password else e
  if e ≠ .ok then (e, .zero)
  else (.ok, ⟨kWifiCredentialsMagic, memcpy WifiCredentials.zero.ssid ssid,
    memcpy WifiCredentials.zero.password password⟩)

def credentialsUsable (c : WifiCredentials) : Bool :=
  if c.magic ≠ kWifiCredentialsMagic then false
  else
    match terminated c.ssid, terminated c.password with
    | some ssid, some password =>
        validateSsid ssid == .ok && validatePassword password == .ok
    | _, _ => false

/-! ## The token -/

def kProvisionTokenHexChars : Nat := 64

structure ProvisionTokenRecord where
  magic : UInt32
  token : Vector UInt8 (kProvisionTokenHexChars + 1)
deriving DecidableEq

def kProvisionTokenMagic : UInt32 := 0x314B4F54

def ProvisionTokenRecord.zero : ProvisionTokenRecord := ⟨0, Vector.replicate _ 0⟩

inductive TokenError where
  | ok
  | missing
  | badLength
  | badHex
deriving DecidableEq

def tokenErrorText : TokenError → List UInt8
  | .ok => []
  | .missing => ascii "Enter the provisioning token from the installation sheet."
  | .badLength => ascii "The provisioning token is 64 characters long."
  | .badHex => ascii "The provisioning token uses only the characters 0-9 and a-f."

def trimSpaces.space (c : UInt8) : Bool :=
  c == ' '.toUInt8 || c == '\t'.toUInt8 || c == '\r'.toUInt8 || c == '\n'.toUInt8

def trimSpaces (s : List UInt8) : List UInt8 :=
  ((s.dropWhile trimSpaces.space).reverse.dropWhile trimSpaces.space).reverse

def validateProvisionToken (s : List UInt8) : TokenError :=
  if s.length = 0 then .missing
  else if s.length ≠ kProvisionTokenHexChars then .badLength
  else if s.any (fun c => !tokenHexDigit c) then .badHex
  else .ok

def makeTokenRecord (token : List UInt8) : TokenError × ProvisionTokenRecord :=
  let token := trimSpaces token
  let e := validateProvisionToken token
  if e = .ok then
    (e, ⟨kProvisionTokenMagic, memcpy ProvisionTokenRecord.zero.token (token.map lowerHex)⟩)
  else (e, .zero)

def tokenRecordUsable (r : ProvisionTokenRecord) : Bool :=
  if r.magic ≠ kProvisionTokenMagic then false
  else if r.token.toList[kProvisionTokenHexChars]? ≠ some 0 then false
  else (r.token.toList.take kProvisionTokenHexChars).all fun c =>
    decide (('0'.toUInt8 ≤ c ∧ c ≤ '9'.toUInt8) ∨ ('a'.toUInt8 ≤ c ∧ c ≤ 'f'.toUInt8))

/-! ## The writer and the check at boot -/

theorem makeCredentials_fst (ssid password : List UInt8) :
    (makeCredentials ssid password).1 = .ok ↔
      validateSsid ssid = .ok ∧ validatePassword password = .ok := by
  simp only [makeCredentials]
  by_cases valid : validateSsid ssid = .ok
  · rw [if_pos valid]
    split <;> simp_all
  · rw [if_neg valid, if_pos valid]
    simp [valid]

theorem validateSsid_eq_ok {ssid : List UInt8} (valid : validateSsid ssid = .ok) :
    ssid.length < kWifiSsidMaxBytes + 1 ∧ 0 ∉ ssid := by
  rw [validateSsid] at valid
  split at valid
  · cases valid
  split at valid
  · cases valid
  split at valid
  · cases valid
  · case isFalse plain =>
      refine ⟨by omega, fun member => plain ?_⟩
      exact List.any_eq_true.mpr ⟨0, member, rfl⟩

theorem validatePassword_eq_ok {password : List UInt8} (valid : validatePassword password = .ok) :
    password.length < kWifiPskHexChars + 1 ∧ 0 ∉ password := by
  rw [validatePassword] at valid
  split at valid
  · case isTrue empty =>
      rw [List.length_eq_zero_iff.mp empty]
      exact ⟨by decide, List.not_mem_nil⟩
  split at valid
  · cases valid
  split at valid
  · case isTrue key =>
      split at valid
      · cases valid
      · case isFalse plain =>
          refine ⟨by omega, fun member => plain ?_⟩
          exact List.any_eq_true.mpr ⟨0, member, by decide⟩
  split at valid
  · cases valid
  split at valid
  · cases valid
  · case isFalse short plain =>
      refine ⟨?_, fun member => plain ?_⟩
      · rw [kWifiPassphraseMaxBytes] at short
        rw [kWifiPskHexChars]
        omega
      · exact List.any_eq_true.mpr ⟨0, member, rfl⟩

theorem makeCredentials_ok {ssid password : List UInt8}
    (made : (makeCredentials ssid password).1 = .ok) :
    (makeCredentials ssid password).2.magic = kWifiCredentialsMagic ∧
      terminated (makeCredentials ssid password).2.ssid = some ssid ∧
      terminated (makeCredentials ssid password).2.password = some password := by
  have valid := (makeCredentials_fst ssid password).mp made
  obtain ⟨ssidFits, ssidPlain⟩ := validateSsid_eq_ok valid.1
  obtain ⟨passwordFits, passwordPlain⟩ := validatePassword_eq_ok valid.2
  have record : (makeCredentials ssid password).2 = ⟨kWifiCredentialsMagic,
      memcpy WifiCredentials.zero.ssid ssid, memcpy WifiCredentials.zero.password password⟩ := by
    simp [makeCredentials, valid]
  rw [record]
  exact ⟨rfl, terminated_memcpy ssidFits ssidPlain, terminated_memcpy passwordFits passwordPlain⟩

theorem makeCredentials_error {ssid password : List UInt8}
    (refused : (makeCredentials ssid password).1 ≠ .ok) :
    (makeCredentials ssid password).2 = .zero := by
  simp only [makeCredentials] at refused ⊢
  generalize (if validateSsid ssid = .ok then _ else _) = e at refused ⊢
  split at refused
  · case isTrue failed => rw [if_pos failed]
  · case isFalse => exact absurd rfl refused

theorem credentialsUsable_iff {c : WifiCredentials} :
    credentialsUsable c = true ↔ c.magic = kWifiCredentialsMagic ∧ ∃ ssid password,
      terminated c.ssid = some ssid ∧ terminated c.password = some password ∧
        validateSsid ssid = .ok ∧ validatePassword password = .ok := by
  rw [credentialsUsable]
  by_cases magic : c.magic = kWifiCredentialsMagic
  · rw [if_neg (not_not_intro magic), and_iff_right magic]
    cases terminated c.ssid <;> cases terminated c.password <;> simp
  · rw [if_pos magic]
    simp [magic]

theorem credentialsUsable_zero : credentialsUsable .zero = false := by decide

/-- A digit of a token as it is stored. -/
def isStoredHex (c : UInt8) : Bool :=
  decide (('0'.toUInt8 ≤ c ∧ c ≤ '9'.toUInt8) ∨ ('a'.toUInt8 ≤ c ∧ c ≤ 'f'.toUInt8))

theorem isStoredHex_lowerHex {c : UInt8} :
    tokenHexDigit c = true → isStoredHex (lowerHex c) = true := by
  refine @forall_byte (fun c => tokenHexDigit c = true → isStoredHex (lowerHex c) = true) ?_ c
  decide +kernel

theorem isStoredHex_digit {c : UInt8} : isStoredHex c = true →
    tokenHexDigit c = true ∧ lowerHex c = c ∧ trimSpaces.space c = false := by
  refine @forall_byte (fun c => isStoredHex c = true →
    tokenHexDigit c = true ∧ lowerHex c = c ∧ trimSpaces.space c = false) ?_ c
  decide +kernel

theorem validateProvisionToken_eq_ok {s : List UInt8} :
    validateProvisionToken s = .ok ↔
      s.length = kProvisionTokenHexChars ∧ ∀ c ∈ s, tokenHexDigit c = true := by
  rw [validateProvisionToken]
  by_cases size : s.length = kProvisionTokenHexChars
  · rw [if_neg (by rw [size]; decide), if_neg (not_not_intro size), and_iff_right size]
    simp
  · rw [if_pos size]
    split <;> simp [size]

theorem tokenRecordUsable_iff {r : ProvisionTokenRecord} :
    tokenRecordUsable r = true ↔ r.magic = kProvisionTokenMagic ∧ ∃ hex,
      hex.length = kProvisionTokenHexChars ∧ (∀ c ∈ hex, isStoredHex c = true) ∧
        r.token.toList = hex ++ [0] := by
  have size : r.token.toList.length = kProvisionTokenHexChars + 1 := Vector.length_toList
  rw [tokenRecordUsable]
  generalize r.token.toList = field at size ⊢
  by_cases magic : r.magic = kProvisionTokenMagic
  · rw [if_neg (not_not_intro magic), and_iff_right magic]
    constructor
    · intro usable
      split at usable
      · cases usable
      · case isFalse last =>
          have split := List.take_append_drop kProvisionTokenHexChars field
          rw [List.drop_eq_getElem_cons (by omega), List.drop_eq_nil_of_le (by omega)] at split
          rw [not_ne_iff, List.getElem?_eq_getElem (by omega), Option.some.injEq] at last
          rw [last] at split
          refine ⟨field.take kProvisionTokenHexChars, ?_, List.all_eq_true.mp usable, split.symm⟩
          rw [List.length_take]
          omega
    · rintro ⟨hex, hexSize, digits, rfl⟩
      rw [if_neg (by simp [← hexSize]), List.take_left' hexSize]
      exact List.all_eq_true.mpr digits
  · rw [if_pos magic]
    simp [magic]

theorem trimSpaces_eq_self {s : List UInt8} (solid : ∀ c ∈ s, trimSpaces.space c = false) :
    trimSpaces s = s := by
  have kept {text : List UInt8} (solid : ∀ c ∈ text, trimSpaces.space c = false) :
      text.dropWhile trimSpaces.space = text := by
    refine List.dropWhile_eq_self_iff.mpr fun positive => ?_
    rw [solid _ (List.getElem_mem positive)]
    decide
  rw [trimSpaces, kept solid, kept (by simpa using solid), List.reverse_reverse]

theorem makeTokenRecord_fst (token : List UInt8) :
    (makeTokenRecord token).1 = validateProvisionToken (trimSpaces token) := by
  simp only [makeTokenRecord]
  split
  · rfl
  · rfl

theorem makeTokenRecord_ok {token : List UInt8} (made : (makeTokenRecord token).1 = .ok) :
    (makeTokenRecord token).2.magic = kProvisionTokenMagic ∧
      (makeTokenRecord token).2.token.toList = (trimSpaces token).map lowerHex ++ [0] := by
  rw [makeTokenRecord_fst] at made
  have size := (validateProvisionToken_eq_ok.mp made).1
  have record : (makeTokenRecord token).2 = ⟨kProvisionTokenMagic,
      memcpy ProvisionTokenRecord.zero.token ((trimSpaces token).map lowerHex)⟩ := by
    simp [makeTokenRecord, made]
  have text : (memcpy ProvisionTokenRecord.zero.token ((trimSpaces token).map lowerHex)).toList =
      (trimSpaces token).map lowerHex ++
        List.replicate (kProvisionTokenHexChars + 1 - ((trimSpaces token).map lowerHex).length) 0 :=
    toList_memcpy (by rw [List.length_map, size]; decide)
  rw [List.length_map, size] at text
  rw [record]
  exact ⟨rfl, text⟩

theorem makeTokenRecord_error {token : List UInt8} (refused : (makeTokenRecord token).1 ≠ .ok) :
    (makeTokenRecord token).2 = .zero := by
  rw [makeTokenRecord_fst] at refused
  simp only [makeTokenRecord]
  rw [if_neg refused]

theorem credentialsUsable_makeCredentials {ssid password : List UInt8}
    (made : (makeCredentials ssid password).1 = .ok) :
    credentialsUsable (makeCredentials ssid password).2 = true := by
  obtain ⟨validSsid, validPassword⟩ := (makeCredentials_fst ssid password).mp made
  obtain ⟨magic, ssidText, passwordText⟩ := makeCredentials_ok made
  exact credentialsUsable_iff.mpr
    ⟨magic, ssid, password, ssidText, passwordText, validSsid, validPassword⟩

theorem tokenRecordUsable_makeTokenRecord {token : List UInt8}
    (made : (makeTokenRecord token).1 = .ok) :
    tokenRecordUsable (makeTokenRecord token).2 = true := by
  obtain ⟨magic, text⟩ := makeTokenRecord_ok made
  rw [makeTokenRecord_fst, validateProvisionToken_eq_ok] at made
  refine tokenRecordUsable_iff.mpr ⟨magic, _, ?_, ?_, text⟩
  · rw [List.length_map, made.1]
  · intro c member
    obtain ⟨digit, known, rfl⟩ := List.mem_map.mp member
    exact isStoredHex_lowerHex (made.2 digit known)

theorem terminated_makeTokenRecord {token : List UInt8} (made : (makeTokenRecord token).1 = .ok) :
    terminated (makeTokenRecord token).2.token = some ((trimSpaces token).map lowerHex) := by
  have valid := validateProvisionToken_eq_ok.mp ((makeTokenRecord_fst token).symm.trans made)
  refine terminated_append (fun member => ?_) (makeTokenRecord_ok made).2
  obtain ⟨digit, known, zero⟩ := List.mem_map.mp member
  have stored := isStoredHex_lowerHex (valid.2 digit known)
  rw [zero] at stored
  exact absurd stored (by decide)

/-- A usable token is stored as it would be written again. -/
theorem makeTokenRecord_usable {r : ProvisionTokenRecord} (usable : tokenRecordUsable r = true) :
    ∃ token, makeTokenRecord token = (.ok, r) := by
  obtain ⟨magic, hex, size, digits, text⟩ := tokenRecordUsable_iff.mp usable
  have trimmed : trimSpaces hex = hex :=
    trimSpaces_eq_self fun c member => (isStoredHex_digit (digits c member)).2.2
  have lowered : hex.map lowerHex = hex := by
    refine (List.map_congr_left fun c member => ?_).trans hex.map_id
    exact (isStoredHex_digit (digits c member)).2.1
  have valid : (makeTokenRecord hex).1 = .ok := by
    rw [makeTokenRecord_fst, trimmed, validateProvisionToken_eq_ok]
    exact ⟨size, fun c member => (isStoredHex_digit (digits c member)).1⟩
  obtain ⟨madeMagic, madeText⟩ := makeTokenRecord_ok valid
  refine ⟨hex, Prod.ext valid ?_⟩
  rw [trimmed, lowered, ← text, Vector.toList_inj] at madeText
  generalize (makeTokenRecord hex).2 = made at madeMagic madeText
  cases made
  cases r
  simp_all

/-- What the portal accepts is what the next boot uses. -/
theorem stored_records_agree :
    (∀ ssid password : List UInt8,
      ((makeCredentials ssid password).1 = .ok ↔
        validateSsid ssid = .ok ∧ validatePassword password = .ok) ∧
      ((makeCredentials ssid password).1 = .ok →
        credentialsUsable (makeCredentials ssid password).2 = true ∧
        terminated (makeCredentials ssid password).2.ssid = some ssid ∧
        terminated (makeCredentials ssid password).2.password = some password) ∧
      ((makeCredentials ssid password).1 ≠ .ok →
        (makeCredentials ssid password).2 = .zero ∧
        credentialsUsable (makeCredentials ssid password).2 = false)) ∧
    (∀ c : WifiCredentials, credentialsUsable c = true → ∃ ssid password,
      (makeCredentials ssid password).1 = .ok ∧
      c.magic = (makeCredentials ssid password).2.magic ∧
      terminated c.ssid = terminated (makeCredentials ssid password).2.ssid ∧
      terminated c.password = terminated (makeCredentials ssid password).2.password) ∧
    (∀ token : List UInt8,
      ((makeTokenRecord token).1 = .ok ↔ validateProvisionToken (trimSpaces token) = .ok) ∧
      ((makeTokenRecord token).1 = .ok →
        tokenRecordUsable (makeTokenRecord token).2 = true ∧
        terminated (makeTokenRecord token).2.token = some ((trimSpaces token).map lowerHex)) ∧
      ((makeTokenRecord token).1 ≠ .ok →
        (makeTokenRecord token).2 = .zero ∧
        tokenRecordUsable (makeTokenRecord token).2 = false)) ∧
    (∀ r : ProvisionTokenRecord, tokenRecordUsable r = true →
      ∃ token, makeTokenRecord token = (.ok, r)) := by
  refine ⟨fun ssid password =>
      ⟨makeCredentials_fst ssid password, fun made => ?_, fun refused => ?_⟩,
    fun c usable => ?_, fun token => ⟨?_, fun made => ?_, fun refused => ?_⟩,
    fun r usable => makeTokenRecord_usable usable⟩
  · exact ⟨credentialsUsable_makeCredentials made, (makeCredentials_ok made).2⟩
  · rw [makeCredentials_error refused]
    exact ⟨rfl, credentialsUsable_zero⟩
  · obtain ⟨magic, ssid, password, ssidText, passwordText, valid⟩ := credentialsUsable_iff.mp usable
    have made := (makeCredentials_fst ssid password).mpr valid
    obtain ⟨madeMagic, madeSsid, madePassword⟩ := makeCredentials_ok made
    exact ⟨ssid, password, made, magic.trans madeMagic.symm, ssidText.trans madeSsid.symm,
      passwordText.trans madePassword.symm⟩
  · rw [makeTokenRecord_fst]
  · exact ⟨tokenRecordUsable_makeTokenRecord made, terminated_makeTokenRecord made⟩
  · rw [makeTokenRecord_error refused]
    exact ⟨rfl, by decide⟩

theorem stored_records_agree_sample :
    credentialsUsable (makeCredentials (ascii "office") []).2 = true ∧
      terminated (makeCredentials (ascii "office") []).2.ssid = some (ascii "office") := by
  have agree := stored_records_agree.1 (ascii "office") []
  have made := agree.1.mpr ⟨by decide, by decide⟩
  exact ⟨(agree.2.1 made).1, (agree.2.1 made).2.1⟩

end Presence.Firmware
