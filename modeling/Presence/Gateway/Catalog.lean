import Presence.Auth.Hmac
import Presence.Go.EncodeJson
import Presence.Ota.Version

namespace Presence.Gateway

open Presence.Data.JsonText (bytes)
open Presence.Go Presence.Ota

/-! # The release catalog

`catalog.go`: which firmware a device is offered.  What the file system answers and what
the JSON decoder makes of a file are parameters; a Go string is its bytes.
-/

structure FirmwareManifest where
  available : Bool
  version : List UInt8
  url : List UInt8
  size : Int64
  sha256 : List UInt8
  signature : List UInt8
deriving DecidableEq, Repr

namespace FirmwareManifest

/-- `FirmwareManifest{Available: false}` -/
def unavailable : FirmwareManifest := ⟨false, [], [], 0, [], []⟩

def fields (m : FirmwareManifest) : List EncodedField :=
  ⟨"available", encodeBool m.available⟩ ::
    (optionalString "version" m.version ++ optionalString "url" m.url ++ optionalInt "size" m.size.toInt ++
      optionalString "sha256" m.sha256 ++ optionalString "signature" m.signature)

end FirmwareManifest

def imagePathPrefix : List UInt8 := bytes "/v1/device/firmware/images/"

/-! ## The directory -/

inductive Path where
  | manifest (channel : List UInt8)
  | image (sha : List UInt8)

inductive OsError where
  | notExist
  | other (text : String)

structure FileInfo where
  size : Int64
  modTime : Int
  isRegular : Bool

/-- `copied` is an opened file as it is read to its end, `statOpened` what it is after
that. -/
structure Files where
  readFile : Path → Except OsError (List UInt8)
  stat : Path → Except OsError FileInfo
  copied : Path → Except OsError (List UInt8)
  statOpened : Path → Except OsError FileInfo

inductive CatalogError where
  | noRelease
  | noImage
  | badCurrent
  | os (error : OsError)
  | invalidChannel (channel : List UInt8)
  | undecoded (channel : List UInt8) (text : String)
  | unavailable (channel : List UInt8)
  | badVersion (channel version : List UInt8)
  | badSize (channel : List UInt8) (size : Int64)
  | badSha256 (channel : List UInt8)
  | badSignature (channel : List UInt8)
  | hasUrl (channel : List UInt8)
  | missingImage (channel sha : List UInt8)
  | mismatch (sha : List UInt8) (size : Int64) (sum : List UInt8) (named : Int64)
  | notRegular (sha : List UInt8)
  | changed (sha : List UInt8)
  | newer (error : NewerError)

structure HashEntry where
  size : Int64
  modTime : Int
  sum : List UInt8

/-- The last verified identity of each image. -/
structure Catalog where
  hashes : List UInt8 → Option HashEntry

def isLowerHex (c : UInt8) : Bool :=
  decide ('0'.toUInt8 ≤ c ∧ c ≤ '9'.toUInt8 ∨ 'a'.toUInt8 ≤ c ∧ c ≤ 'f'.toUInt8)

/-- `[0-9a-f]{digits}`, and nothing else. -/
def hexText (digits : Nat) (s : List UInt8) : Bool := s.length == digits && s.all isLowerHex

def validSha256 (s : List UInt8) : Bool := hexText 64 s

def validSignature (s : List UInt8) : Bool := hexText 128 s

def isChannelByte (c : UInt8) : Bool :=
  decide ('a'.toUInt8 ≤ c ∧ c ≤ 'z'.toUInt8 ∨ '0'.toUInt8 ≤ c ∧ c ≤ '9'.toUInt8)

def validChannel : List UInt8 → Bool
  | [] => false
  | first :: rest =>
      isChannelByte first && decide (rest.length ≤ 31) &&
        rest.all fun c => isChannelByte c || c == '-'.toUInt8

namespace Catalog

def cachedIdentity (catalog : Catalog) (sha : List UInt8) (info : FileInfo) : Option HashEntry :=
  (catalog.hashes sha).filter fun e => e.size = info.size ∧ e.modTime = info.modTime

/-- Hashes the image only when its size or its modification time has changed. -/
def imageIdentity (files : Files) (catalog : Catalog) (sha : List UInt8) :
    Except CatalogError (Int64 × List UInt8) × Catalog :=
  match files.stat (.image sha) with
  | .error .notExist => (.error .noImage, catalog)
  | .error error => (.error (.os error), catalog)
  | .ok info =>
      if !info.isRegular then (.error (.notRegular sha), catalog)
      else
        match catalog.cachedIdentity sha info with
        | some e => (.ok (e.size, e.sum), catalog)
        | none =>
            match files.copied (.image sha), files.statOpened (.image sha) with
            | .error error, _ => (.error (.os error), catalog)
            | _, .error error => (.error (.os error), catalog)
            | .ok content, .ok after =>
                let n := Int64.ofNat content.length
                if after.size ≠ n ∨ after.modTime ≠ info.modTime then (.error (.changed sha), catalog)
                else
                  let sum := Auth.textBytes (encodeHex (Sha256.sum256 content))
                  (.ok (n, sum),
                    ⟨Function.update catalog.hashes sha (some ⟨n, after.modTime, sum⟩)⟩)

/-- The checks on a manifest as it was decoded. -/
def checkManifest (channel : List UInt8) (m : FirmwareManifest) : Option CatalogError :=
  if !m.available then some (.unavailable channel)
  else if (parse m.version).isNone then some (.badVersion channel m.version)
  else if m.size ≤ 0 then some (.badSize channel m.size)
  else if !validSha256 m.sha256 then some (.badSha256 channel)
  else if !validSignature m.signature then some (.badSignature channel)
  else if m.url ≠ [] then some (.hasUrl channel)
  else none

section

variable (files : Files) (decode : List UInt8 → Except String FirmwareManifest) (catalog : Catalog)

def release (channel : List UInt8) : Except CatalogError FirmwareManifest × Catalog :=
  if !validChannel channel then (.error (.invalidChannel channel), catalog)
  else
    match files.readFile (.manifest channel) with
    | .error .notExist => (.error .noRelease, catalog)
    | .error error => (.error (.os error), catalog)
    | .ok raw =>
        match decode raw with
        | .error text => (.error (.undecoded channel text), catalog)
        | .ok m =>
            match checkManifest channel m with
            | some error => (.error error, catalog)
            | none =>
                match imageIdentity files catalog m.sha256 with
                | (.error .noImage, catalog) => (.error (.missingImage channel m.sha256), catalog)
                | (.error error, catalog) => (.error error, catalog)
                | (.ok (size, sum), catalog) =>
                    if size ≠ m.size ∨ sum ≠ m.sha256 then
                      (.error (.mismatch m.sha256 size sum m.size), catalog)
                    else (.ok { m with url := imagePathPrefix ++ m.sha256 }, catalog)

/-- The manifest for a device on a channel, and the error beside it. -/
def offer (channel current : List UInt8) : (FirmwareManifest × Option CatalogError) × Catalog :=
  if (parse current).isNone then ((.unavailable, some .badCurrent), catalog)
  else
    match release files decode catalog channel with
    | (.error .noRelease, catalog) => ((.unavailable, none), catalog)
    | (.error error, catalog) => ((.unavailable, some error), catalog)
    | (.ok rel, catalog) =>
        match newer rel.version current with
        | .error error => ((.unavailable, some (.newer error)), catalog)
        | .ok false => ((.unavailable, none), catalog)
        | .ok true => ((rel, none), catalog)

end

end Catalog

/-! ## What is offered -/

/-- A manifest that was checked, under the path of its image. -/
structure FirmwareManifest.Released (m : FirmwareManifest) : Prop where
  available : m.available = true
  version : (parse m.version).isSome = true
  size : 0 < m.size.toInt
  sha256 : validSha256 m.sha256 = true
  signature : validSignature m.signature = true
  url : m.url = imagePathPrefix ++ m.sha256

namespace Catalog

variable {files : Files} {decode : List UInt8 → Except String FirmwareManifest} {catalog : Catalog}
  {channel current : List UInt8} {m : FirmwareManifest}

theorem checkManifest_none (checked : checkManifest channel m = none) :
    m.available = true ∧ (parse m.version).isSome = true ∧ 0 < m.size.toInt ∧
      validSha256 m.sha256 = true ∧ validSignature m.signature = true := by
  simp only [checkManifest] at checked
  split at checked
  next => cases checked
  next available =>
  split at checked
  next => cases checked
  next version =>
  split at checked
  next => cases checked
  next size =>
  split at checked
  next => cases checked
  next sha256 =>
  split at checked
  next => cases checked
  next signature =>
    have positive : 0 < m.size.toInt := by
      rw [Int64.le_iff_toInt_le] at size
      exact Int.not_le.mp size
    have read : (parse m.version).isSome = true := by
      simpa [Option.isSome_iff_ne_none] using version
    exact ⟨by simpa using available, read, positive, by simpa using sha256, by simpa using signature⟩

theorem release_ok (released : (release files decode catalog channel).1 = .ok m) : m.Released := by
  simp only [release] at released
  split at released
  next => cases released
  next =>
  split at released
  next => cases released
  next => cases released
  next raw =>
  split at released
  next => cases released
  next decoded =>
  split at released
  next => cases released
  next checked =>
  split at released
  next => cases released
  next => cases released
  next identity =>
  split at released
  next => cases released
  next =>
    cases released
    obtain ⟨available, version, size, sha256, signature⟩ := checkManifest_none checked
    exact ⟨available, version, size, sha256, signature, rfl⟩

/-- Nothing, or what the release process has published. -/
theorem offer_cases (files : Files) (decode : List UInt8 → Except String FirmwareManifest)
    (catalog : Catalog) (channel current : List UInt8) :
    (offer files decode catalog channel current).1.1 = .unavailable ∨
      (offer files decode catalog channel current).1.1.Released := by
  simp only [offer]
  split
  next => exact .inl rfl
  next =>
    split
    next => exact .inl rfl
    next => exact .inl rfl
    next rel after ran =>
      have released : rel.Released := release_ok (congrArg Prod.fst ran)
      split
      next => exact .inl rfl
      next => exact .inl rfl
      next => exact .inr released

end Catalog

end Presence.Gateway
