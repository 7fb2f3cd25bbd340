import Presence.Firmware.Canonical
import Presence.Firmware.FlatAnswer
import Presence.Gateway.Catalog
import Presence.Ota.Guard

namespace Presence.Ota

open Presence.Data Presence.Data.JsonText Presence.Firmware Presence.Firmware.NetLoop Presence.Gateway
open Presence.Go

/-! # The manifest on the terminal

`parseOtaManifest` of `ota_verify.h`, against what the gateway writes.
-/

def kEd25519SignatureBytes : Nat := 64

def kSha256Bytes : Nat := 32

structure OtaManifest where
  available : Bool
  version : List UInt8
  url : List UInt8
  size : UInt64
  sha256 : Vector UInt8 kSha256Bytes
  signature : Vector UInt8 kEd25519SignatureBytes

def OtaManifest.empty : OtaManifest := ⟨false, [], [], 0, .replicate _ 0, .replicate _ 0⟩

def kManifestMaxVersion : Nat := 32

def kManifestMaxUrl : Nat := 512

def isPathByte (c : UInt8) : Bool :=
  decide ('a'.toUInt8 ≤ c ∧ c ≤ 'z'.toUInt8) || decide ('0'.toUInt8 ≤ c ∧ c ≤ '9'.toUInt8) ||
    c == '/'.toUInt8 || c == '.'.toUInt8 || c == '-'.toUInt8 ||
    decide ('A'.toUInt8 ≤ c ∧ c ≤ 'Z'.toUInt8) || c == '_'.toUInt8

/-- `url.find("..")` finds it. -/
def climbs : List UInt8 → Bool
  | first :: second :: rest =>
      first == '.'.toUInt8 && second == '.'.toUInt8 || climbs (second :: rest)
  | _ => false

def otaUrlIsGatewayPath (url : List UInt8) : Bool :=
  (ascii "/v1/device/firmware/images/").isPrefixOf url && url.all isPathByte && !climbs url

def usableUrl (url : List UInt8) : Bool :=
  otaUrlIsGatewayPath url || (ascii "https://").isPrefixOf url || (ascii "http://").isPrefixOf url

/-- A manifest with `available` true: every field has to be there. -/
def parseAvailable (json : List UInt8) : Option OtaManifest := do
  let version ← parseJsonString json (ascii "version") kManifestMaxVersion
  let _ ← parseOtaVersion version
  let url ← parseJsonString json (ascii "url") kManifestMaxUrl
  if !usableUrl url then none
  else
    let size ← parseJsonInt json (ascii "size")
    if size ≤ 0 then none
    else
      let sha ← parseJsonString json (ascii "sha256") (2 * kSha256Bytes)
      let sig ← parseJsonString json (ascii "signature") (2 * kEd25519SignatureBytes)
      let sha256 ← decodeHexExact sha kSha256Bytes
      let signature ← decodeHexExact sig kEd25519SignatureBytes
      return { available := true, version, url, size := .ofNat size.toNat, sha256, signature }

def parseOtaManifest (json : List UInt8) : Option OtaManifest :=
  match parseJsonBool json (ascii "available") with
  | none => none
  | some false => some .empty
  | some true => parseAvailable json

/-! ## Hex -/

theorem nibble_lowerHex {c : UInt8} : isLowerHex c = true →
    ∃ digit : Fin 16, nibble c = some (.ofNat digit) ∧ (ascii "0123456789abcdef").getD digit 0 = c := by
  refine @forall_byte (fun c => isLowerHex c = true →
    ∃ digit : Fin 16, nibble c = some (.ofNat digit) ∧
      (ascii "0123456789abcdef").getD digit 0 = c) ?_ c
  decide +kernel

/-- Two digits, put together and taken apart. -/
theorem joined_digits : ∀ high low : Fin 16,
    ((UInt8.ofNat high <<< 4 ||| UInt8.ofNat low) >>> 4).toNat = high ∧
      ((UInt8.ofNat high <<< 4 ||| UInt8.ofNat low) &&& 0x0F).toNat = low := by
  decide +kernel

/-- Lower-case digits are read as the bytes they are written for. -/
theorem decodeHexPairs_lowerHex {count : Nat} {hex : List UInt8} (length : hex.length = count * 2)
    (lower : ∀ c ∈ hex, isLowerHex c = true) :
    ∃ out, decodeHexPairs hex = some out ∧ out.length = count ∧ toHex out = hex := by
  induction count generalizing hex with
  | zero =>
      have empty : hex = [] := List.eq_nil_of_length_eq_zero (by omega)
      rw [empty]
      exact ⟨[], rfl, rfl, rfl⟩
  | succ count ih =>
      match hex with
      | [] => simp at length
      | [_] =>
          simp at length
          omega
      | high :: low :: rest =>
          obtain ⟨first, others⟩ := List.forall_mem_cons.mp lower
          obtain ⟨second, later⟩ := List.forall_mem_cons.mp others
          have shorter : rest.length = count * 2 := by
            simp only [List.length_cons] at length
            omega
          obtain ⟨out, read, counted, written⟩ := ih shorter later
          obtain ⟨top, readHigh, symbolHigh⟩ := nibble_lowerHex first
          obtain ⟨bottom, readLow, symbolLow⟩ := nibble_lowerHex second
          obtain ⟨shifted, masked⟩ := joined_digits top bottom
          refine ⟨_, by rw [decodeHexPairs, readHigh, readLow, read], by simp [counted], ?_⟩
          simp only [toHex, List.flatMap_cons] at written ⊢
          rw [written, shifted, masked, symbolHigh, symbolLow]
          rfl

theorem decodeHexExact_lowerHex {outLen : Nat} {hex : List UInt8}
    (valid : hexText (2 * outLen) hex = true) :
    ∃ out : Vector UInt8 outLen, decodeHexExact hex outLen = some out ∧ toHex out.toList = hex := by
  obtain ⟨length, lower⟩ := Bool.and_eq_true_iff.mp valid
  have length : hex.length = outLen * 2 := (eq_of_beq length).trans (Nat.mul_comm 2 outLen)
  obtain ⟨out, read, counted, written⟩ := decodeHexPairs_lowerHex length (List.all_eq_true.mp lower)
  refine ⟨⟨out.toArray, by simpa using counted⟩, ?_, by simpa using written⟩
  rw [decodeHexExact, if_pos length, read]
  simp only [counted, dif_pos]

/-! ## What the gateway writes -/

theorem htmlSafe_lowerHex {c : UInt8} : isLowerHex c = true → htmlSafe c = true := by
  refine @forall_byte (fun c => isLowerHex c = true → htmlSafe c = true) ?_ c
  decide +kernel

theorem isPathByte_lowerHex {c : UInt8} :
    isLowerHex c = true → isPathByte c = true ∧ c ≠ '.'.toUInt8 := by
  refine @forall_byte (fun c => isLowerHex c = true → isPathByte c = true ∧ c ≠ '.'.toUInt8) ?_ c
  decide +kernel

theorem htmlSafe_version (version : Version) : HtmlSafe version.text := by
  have dot {tail : List UInt8} (safe : HtmlSafe tail) : HtmlSafe ('.'.toUInt8 :: tail) :=
    List.forall_mem_cons.mpr ⟨by decide, safe⟩
  exact htmlSafe_append (htmlSafe_text _) (dot (htmlSafe_append (htmlSafe_text _) (dot (htmlSafe_text _))))

theorem htmlSafe_hexText {digits : Nat} {s : List UInt8} (valid : hexText digits s = true) :
    HtmlSafe s := by
  obtain ⟨-, lower⟩ := Bool.and_eq_true_iff.mp valid
  exact fun c member => htmlSafe_lowerHex (List.all_eq_true.mp lower c member)

theorem length_hexText {digits : Nat} {s : List UInt8} (valid : hexText digits s = true) :
    s.length = digits :=
  eq_of_beq (Bool.and_eq_true_iff.mp valid).1

/-- No dot, no two dots. -/
theorem climbs_of_no_dot {url : List UInt8} (dotless : ∀ c ∈ url, c ≠ '.'.toUInt8) :
    climbs url = false := by
  induction url with
  | nil => rfl
  | cons first rest ih =>
      obtain ⟨different, later⟩ := List.forall_mem_cons.mp dotless
      cases rest with
      | nil => rfl
      | cons second rest =>
          have next := ih later
          simp [climbs, next, different]

/-- The path of an image is one the terminal signs. -/
theorem gatewayPath_image {sha : List UInt8} (valid : validSha256 sha = true) :
    otaUrlIsGatewayPath (imagePathPrefix ++ sha) = true := by
  obtain ⟨-, lower⟩ := Bool.and_eq_true_iff.mp valid
  have inside : ∀ c ∈ imagePathPrefix ++ sha, isPathByte c = true ∧ c ≠ '.'.toUInt8 := by
    refine List.forall_mem_append.mpr ⟨by decide +kernel, fun c member => ?_⟩
    exact isPathByte_lowerHex (List.all_eq_true.mp lower c member)
  have whole : (ascii "/v1/device/firmware/images/").isPrefixOf (imagePathPrefix ++ sha) = true :=
    List.isPrefixOf_iff_prefix.mpr (List.prefix_append _ _)
  have bytes : (imagePathPrefix ++ sha).all isPathByte = true :=
    List.all_eq_true.mpr fun c member => (inside c member).1
  rw [otaUrlIsGatewayPath, whole, bytes, climbs_of_no_dot fun c member => (inside c member).2]
  rfl

section

variable {m : FirmwareManifest}

theorem Released.safeVersion (released : m.Released) : HtmlSafe m.version := by
  obtain ⟨code, read⟩ := Option.isSome_iff_exists.mp released.version
  obtain ⟨version, same, -⟩ := parse_eq_some_iff.mp read
  rw [same]
  exact htmlSafe_version version

theorem Released.safeUrl (released : m.Released) : HtmlSafe m.url := by
  rw [released.url]
  exact htmlSafe_append (safeName rfl) (htmlSafe_hexText released.sha256)

/-- The members after the first one. -/
def releasedFields (released : m.Released) : List Field :=
  [plainField "version" (safeName rfl) (stringScalar m.version (Released.safeVersion released)),
    plainField "url" (safeName rfl) (stringScalar m.url (Released.safeUrl released)),
    plainField "size" (safeName rfl) (natScalar m.size.toInt.toNat),
    plainField "sha256" (safeName rfl) (stringScalar m.sha256 (htmlSafe_hexText released.sha256)),
    plainField "signature" (safeName rfl)
      (stringScalar m.signature (htmlSafe_hexText released.signature))]

def availableField (b : Bool) : Field := plainField "available" (safeName rfl) (boolScalar b)

/-- None of the fields is left out. -/
theorem encode_released (released : m.Released) :
    encode m.fields = render (flat (availableField true) (releasedFields released)) ++ newline.text := by
  obtain ⟨code, read⟩ := Option.isSome_iff_exists.mp released.version
  obtain ⟨version, same, -⟩ := parse_eq_some_iff.mp read
  have hasVersion : m.version.isEmpty = false := by
    rw [same, List.isEmpty_eq_false_iff]
    exact List.ne_nil_of_length_pos version.length_text.1
  have hasUrl : m.url.isEmpty = false := by
    rw [released.url]
    rfl
  have hasSize : m.size.toInt ≠ 0 := by
    have positive := released.size
    omega
  have hasText {digits : Nat} {s : List UInt8} (valid : hexText (digits + 1) s = true) :
      s.isEmpty = false := by
    have length := length_hexText valid
    cases s with
    | nil => cases length
    | cons c rest => rfl
  have hasSha256 := hasText released.sha256
  have hasSignature := hasText released.signature
  apply encode_flat
  simp only [FirmwareManifest.fields, optionalString, optionalInt, hasVersion, hasUrl, if_neg hasSize,
    hasSha256, hasSignature, released.available, Bool.false_eq_true, if_false, List.cons_append,
    List.nil_append, List.map_cons, List.map_nil, releasedFields, availableField]
  rw [text_plainField _ (encodeBool_scalar true),
    text_plainField _ (encodeString_scalar (Released.safeVersion released)),
    text_plainField _ (encodeString_scalar (Released.safeUrl released)),
    text_plainField _ (encodeInt_scalar (Int.le_of_lt released.size)),
    text_plainField _ (encodeString_scalar (htmlSafe_hexText released.sha256)),
    text_plainField _ (encodeString_scalar (htmlSafe_hexText released.signature))]

theorem plainNames_released (released : m.Released) :
    PlainNames (availableField true :: releasedFields released) :=
  plainNames_nil.cons.cons.cons.cons.cons.cons

/-- What the terminal reads from a released manifest. -/
theorem parseOtaManifest_released (released : m.Released) :
    ∃ parsed, parseOtaManifest (encode m.fields) = some parsed ∧ parsed.available = true ∧
      parsed.version = m.version ∧ parsed.url = m.url ∧ (parsed.size.toNat : Int) = m.size.toInt ∧
      toHex parsed.sha256.toList = m.sha256 ∧ toHex parsed.signature.toList = m.signature ∧
      otaUrlIsGatewayPath parsed.url = true := by
  have plain := plainNames_released released
  have written := encode_released released
  have available : parseJsonBool (encode m.fields) (ascii "available") = some true := by
    have found : (availableField true :: releasedFields released).find?
        (fun field => spelling field.name == ascii "available") = some _ := rfl
    rw [written]
    exact parseJsonBool_flat newline (by decide +kernel) plain found rfl
  have string {key s : List UInt8} (safe : HtmlSafe s) {maxLen : Nat} {field : Field} (word : IsKey key)
      (found : (availableField true :: releasedFields released).find?
        (fun field => spelling field.name == key) = some field)
      (scalar : field.scalar = stringScalar s safe) (fits : s.length ≤ maxLen) :
      parseJsonString (encode m.fields) key maxLen = some s := by
    rw [written]
    exact parseJsonString_flat newline word plain found scalar fits
  obtain ⟨code, read⟩ := Option.isSome_iff_exists.mp released.version
  obtain ⟨spelled, same, -⟩ := parse_eq_some_iff.mp read
  have shortVersion : m.version.length ≤ kManifestMaxVersion := by
    rw [same]
    exact spelled.length_text.2.trans (by decide)
  have version := string (Released.safeVersion released) (by decide +kernel : IsKey (ascii "version")) rfl rfl shortVersion
  have shortUrl : m.url.length ≤ kManifestMaxUrl := by
    rw [released.url, List.length_append, length_hexText released.sha256]
    decide
  have url := string (Released.safeUrl released) (by decide +kernel : IsKey (ascii "url")) rfl rfl shortUrl
  have gatewayPath : otaUrlIsGatewayPath m.url = true := by
    rw [released.url]
    exact gatewayPath_image released.sha256
  have usable : usableUrl m.url = true := by rw [usableUrl, gatewayPath, Bool.true_or, Bool.true_or]
  have positive := released.size
  have inRange := m.size.toInt_lt
  have size : parseJsonInt (encode m.fields) (ascii "size") = some (m.size.toInt.toNat : Int) := by
    have found : (availableField true :: releasedFields released).find?
        (fun field => spelling field.name == ascii "size") = some _ := rfl
    rw [written]
    exact parseJsonInt_flat newline (by decide +kernel) plain found rfl (by omega)
  have sha := string (htmlSafe_hexText released.sha256) (by decide +kernel : IsKey (ascii "sha256")) rfl rfl
    (Nat.le_of_eq (length_hexText released.sha256))
  have sig := string (htmlSafe_hexText released.signature) (by decide +kernel : IsKey (ascii "signature")) rfl rfl
    (Nat.le_of_eq (length_hexText released.signature))
  obtain ⟨sha256, readSha256, writtenSha256⟩ := @decodeHexExact_lowerHex kSha256Bytes _ released.sha256
  obtain ⟨signature, readSignature, writtenSignature⟩ :=
    @decodeHexExact_lowerHex kEd25519SignatureBytes _ released.signature
  have counted : ¬ (m.size.toInt.toNat : Int) ≤ 0 := by omega
  refine ⟨⟨true, m.version, m.url, .ofNat m.size.toInt.toNat, sha256, signature⟩, ?_, rfl, rfl, rfl, ?_,
    writtenSha256, writtenSignature, gatewayPath⟩
  · rw [parseOtaManifest, available]
    have numbered : parseOtaVersion m.version = some code := (parseOtaVersion_eq m.version).trans read
    have sha : parseJsonString (encode m.fields) (ascii "sha256") (2 * kSha256Bytes) = some m.sha256 := sha
    have sig : parseJsonString (encode m.fields) (ascii "signature") (2 * kEd25519SignatureBytes) =
      some m.signature := sig
    simp only [parseAvailable, version, numbered, url, usable, size, counted, sha, sig, readSha256,
      readSignature, Option.bind_eq_bind, Option.bind_some, Bool.not_true, Bool.false_eq_true, if_false,
      Int.toNat_natCast, Option.pure_def]
  · rw [UInt64.toNat_ofNat']
    omega

end

/-- No update, in as many words. -/
theorem parseOtaManifest_unavailable :
    parseOtaManifest (encode FirmwareManifest.unavailable.fields) = some .empty := by
  have written : encode FirmwareManifest.unavailable.fields =
      render (flat (availableField false) []) ++ newline.text := rfl
  have plain : PlainNames [availableField false] := plainNames_nil.cons
  have found : [availableField false].find?
      (fun field => spelling field.name == ascii "available") = some _ := rfl
  have available : parseJsonBool (encode FirmwareManifest.unavailable.fields) (ascii "available") =
      some false := by
    rw [written]
    exact parseJsonBool_flat newline (by decide +kernel) plain found rfl
  rw [parseOtaManifest, available]

/-- Whatever is published and whatever a device runs, the terminal reads what it is
offered as the gateway means it. -/
theorem offered_manifest_understood (files : Files)
    (decode : List UInt8 → Except String FirmwareManifest) (catalog : Catalog)
    (channel current : List UInt8) :
    let m := (catalog.offer files decode channel current).1.1
    (m.available = true →
      ∃ parsed, parseOtaManifest (encode m.fields) = some parsed ∧ parsed.available = true ∧
        parsed.version = m.version ∧ parsed.url = m.url ∧ (parsed.size.toNat : Int) = m.size.toInt ∧
        toHex parsed.sha256.toList = m.sha256 ∧ toHex parsed.signature.toList = m.signature ∧
        otaUrlIsGatewayPath parsed.url = true) ∧
    (m.available = false →
      ∃ parsed, parseOtaManifest (encode m.fields) = some parsed ∧ parsed.available = false) := by
  intro m
  obtain nothing | released := Catalog.offer_cases files decode catalog channel current
  · have nothing : m = .unavailable := nothing
    rw [nothing]
    exact ⟨fun available => Bool.noConfusion available, fun _ => ⟨_, parseOtaManifest_unavailable, rfl⟩⟩
  · have released : m.Released := released
    refine ⟨fun _ => parseOtaManifest_released released, fun unavailable => ?_⟩
    exact Bool.noConfusion (released.available.symm.trans unavailable)

/-! An image of one byte. -/

def sampleFiles : Files where
  readFile _ := .ok []
  stat _ := .ok ⟨1, 5, true⟩
  copied _ := .ok [7]
  statOpened _ := .ok ⟨1, 5, true⟩

def samplePublished : FirmwareManifest :=
  ⟨true, bytes "0.2.0", [], 1, toHex (Sha256.sum256 [7]), .replicate 128 '0'.toUInt8⟩

theorem offer_samplePublished :
    ((Catalog.mk fun _ => none).offer sampleFiles (fun _ => .ok samplePublished) (bytes "stable")
      (bytes "0.1.0")).1.1 = { samplePublished with url := imagePathPrefix ++ samplePublished.sha256 } := by
  decide +kernel

theorem offered_manifest_understood_sample :
    ∃ parsed, parseOtaManifest
        (encode ({ samplePublished with
          url := imagePathPrefix ++ samplePublished.sha256 } : FirmwareManifest).fields) = some parsed ∧
      parsed.version = bytes "0.2.0" ∧ parsed.size = 1 ∧
      toHex parsed.sha256.toList = samplePublished.sha256 := by
  have understood := (offered_manifest_understood sampleFiles (fun _ => .ok samplePublished)
    ⟨fun _ => none⟩ (bytes "stable") (bytes "0.1.0")).1
  rw [offer_samplePublished] at understood
  obtain ⟨parsed, read, -, version, -, size, sha, -⟩ := understood rfl
  refine ⟨parsed, read, version, UInt64.toNat.inj ?_, sha⟩
  exact Int.ofNat.inj size

end Presence.Ota
