import Mathlib.Data.List.AList
import Presence.Go.Sha256
import Presence.Go.Strconv
import Presence.Go.Time

namespace Presence.Auth

open Presence.Go

/-! # Device request signing

`hmac.go`.  A Go string is a sequence of bytes; header values and paths are read
one character to a byte.  An instant is in nanoseconds, as everywhere.
-/

def maxSkew : Int := 300 * second

inductive Error where
  | missingHeaders
  | badTimestamp
  | badKeyVersion (given : String)
  | clockSkew
  | nonceReplay
  | badSignature
deriving DecidableEq, Repr

structure Credentials where
  deviceId : String
  keyVersion : Int
  timestamp : Int
  nonce : String
  signature : String
  requestId : String
deriving DecidableEq, Repr

def canonicalString (method path : String) (tsMillis : Int) (nonce : String) (body : List UInt8) :
    String :=
  "\n".intercalate
    ["v1", method.toUpper, path, toString tsMillis, nonce, encodeHex (Sha256.sum256 body)]

def textBytes (text : String) : List UInt8 :=
  text.toList.map fun char => UInt8.ofNat char.toNat

def sign (secret : List UInt8) (method path : String) (tsMillis : Int)
    (nonce : String) (body : List UInt8) : String :=
  encodeHex (hmacSha256 secret (textBytes (canonicalString method path tsMillis nonce body)))

/-- The request as the middleware sees it; an absent header reads as "". -/
structure Request where
  method : String
  path : String
  body : List UInt8
  deviceId : String
  keyVersion : String
  timestamp : String
  nonce : String
  signature : String
  requestId : String
deriving DecidableEq, Repr

def extractKeyVersion (request : Request) : Except Error Int :=
  if request.keyVersion = "" then .ok 1
  else
    match parseInt request.keyVersion with
    | none => .error (.badKeyVersion request.keyVersion)
    | some version => .ok version

def extract (request : Request) : Except Error Credentials :=
  if request.deviceId = "" ∨ request.nonce = "" ∨ request.signature = "" ∨
      request.timestamp = "" then
    .error .missingHeaders
  else
    match parseInt request.timestamp with
    | none => .error .badTimestamp
    | some ms => do
        let keyVersion ← extractKeyVersion request
        return {
          deviceId := request.deviceId, keyVersion, timestamp := ms * millisecond,
          nonce := request.nonce, signature := request.signature, requestId := request.requestId }

/-! ## The nonce cache -/

/-- The Go map is the function that looks a key up. -/
structure MemoryNonceCache where
  seen : String → Option Int
  lastPurge : Int
  ttl : Int

def newMemoryNonceCache : MemoryNonceCache where
  seen := fun _ => none
  lastPurge := zeroInstant
  ttl := 2 * maxSkew

namespace MemoryNonceCache

def key (deviceId nonce : String) : String := deviceId ++ "\x00" ++ nonce

def purge (cache : MemoryNonceCache) (now : Int) : MemoryNonceCache :=
  if cache.ttl < sub now cache.lastPurge then
    { cache with
      seen := fun key => (cache.seen key).filter fun taken => sub now taken ≤ cache.ttl
      lastPurge := now }
  else cache

def claim (cache : MemoryNonceCache) (deviceId nonce : String) (now : Int) :
    Bool × MemoryNonceCache :=
  let key := key deviceId nonce
  let cache := cache.purge now
  match cache.seen key with
  | some _ => (false, cache)
  | none => (true, { cache with seen := Function.update cache.seen key (some now) })

end MemoryNonceCache

abbrev Secrets := AList fun _ : Int => List UInt8

/-- `UnixMilli`, an `int64`. -/
def unixMilli (instant : Int) : Int := wrap64 (instant / millisecond)

def verify (creds : Credentials) (now : Int) (method path : String)
    (body : List UInt8) (nonces : MemoryNonceCache) (candidates : Secrets) :
    Except Error Unit × MemoryNonceCache :=
  let delta := sub now creds.timestamp
  if maxSkew < delta ∨ delta < -maxSkew then (.error .clockSkew, nonces)
  else
    match candidates.lookup creds.keyVersion with
    | none => (.error .badSignature, nonces)
    | some secret =>
        let want :=
          sign secret method path (unixMilli creds.timestamp) creds.nonce body
        if want ≠ creds.signature then (.error .badSignature, nonces)
        else
          let (unused, nonces) := nonces.claim creds.deviceId creds.nonce now
          (if unused then .ok () else .error .nonceReplay, nonces)

end Presence.Auth
