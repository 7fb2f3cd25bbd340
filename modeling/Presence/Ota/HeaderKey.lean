import Presence.Data.Matching
import Presence.Data.Search
import Presence.Firmware.Canonical
import Presence.Firmware.Provision
import Presence.Ota.Signing

namespace Presence.Ota

open Presence.Data Presence.Firmware

/-! # The release key in the header

`CArray` and `ParseHeaderKey` of `fwsign.go`: the key is written into `ota_pubkey.h` for the
firmware's compiler and read back out of it by the release tool, which has four regular
expressions for a parser.
-/

/-- Body of the initializer; twelve bytes to the line. -/
def cArray (pub : List UInt8) : List UInt8 :=
  pub.zipIdx.flatMap fun (c, i) =>
    (if i % 12 = 0 then ascii "    " else []) ++ ascii "0x" ++ toHex [c] ++ ascii "," ++
      if i % 12 = 11 ∨ i = pub.length - 1 then ascii "\n" else ascii " "

/-- What `fwsign keygen` tells to paste into the header. -/
def keygenText (pub : List UInt8) : List UInt8 :=
  ascii "static const uint8_t kOtaReleasePublicKey[32] = \x7b\n" ++ cArray pub ++ ascii "\x7d;\n"

/-! ## The expressions -/

def keyName : List UInt8 := ascii "kOtaReleasePublicKey"

/-- The class that the expressions call `\s`. -/
def isSpace (c : UInt8) : Bool :=
  c == ' '.toUInt8 || c == '\t'.toUInt8 || c == '\n'.toUInt8 || c == '\r'.toUInt8 || c == 12

def openBrace : UInt8 := 123

def closeBrace : UInt8 := 125

/-- What follows one expected byte. -/
def behindByte (byte : UInt8) : List UInt8 → Option (List UInt8)
  | [] => none
  | first :: rest => if first = byte then some rest else none

/-- Text in front of the initializer up to its brace, and what follows. -/
def openedKey (text : List UInt8) : Option (List UInt8) :=
  let head := keyName ++ ascii "[32]"
  if head.isPrefixOf text then do
    let rest ← behindByte '='.toUInt8 ((text.drop head.length).dropWhile isSpace)
    behindByte openBrace (rest.dropWhile isSpace)
  else none

/-- `headerKey`, with the body that it captures. -/
def headerKey (text : List UInt8) : Option (List UInt8) := do
  let rest ← openedKey text
  if closeBrace ∈ rest then some (rest.takeWhile (· != closeBrace)) else none

def blockComment : List UInt8 → Option Nat
  | first :: second :: rest =>
    if first = '/'.toUInt8 ∧ second = '*'.toUInt8 then
      (Search.index (ascii "*/") rest).map (· + 4)
    else none
  | _ => none

def lineComment : List UInt8 → Option Nat
  | first :: second :: rest =>
    if first = '/'.toUInt8 ∧ second = '/'.toUInt8 then
      some ((rest.takeWhile (· != '\n'.toUInt8)).length + 2)
    else none
  | _ => none

/-- `headerByte`, with the byte that its two digits decode to. -/
def headerByte : List UInt8 → Option (Nat × UInt8)
  | zero :: x :: high :: low :: _ =>
    if zero = '0'.toUInt8 ∧ x = 'x'.toUInt8 then
      match nibble high, nibble low with
      | some high, some low => some (4, high <<< 4 ||| low)
      | _, _ => none
    else none
  | _ => none

inductive HeaderKeyError where
  /-- kOtaReleasePublicKey[32] initializer not found -/
  | notFound
  /-- kOtaReleasePublicKey has this many bytes, want 32 -/
  | size (bytes : Nat)
deriving DecidableEq, Repr

/-- The bytes of a body once its comments are stripped. -/
def bodyBytes (body : List UInt8) : List UInt8 :=
  let body := Matching.remove blockComment body
  let body := Matching.remove lineComment body
  Matching.findAll headerByte body

def parseHeaderKey (src : List UInt8) : Except HeaderKeyError PublicKey :=
  match Matching.find headerKey src with
  | none => .error .notFound
  | some body =>
    if size : (bodyBytes body).length = 32 then .ok ⟨(bodyBytes body).toArray, size⟩
    else .error (.size (bodyBytes body).length)

end Presence.Ota
