import Presence.Data.Reading
import Presence.Firmware.Digits

namespace Presence.Firmware

open Presence.Data Presence.Data.Reading

/-! # Requests to the setup portal

`parseHttpRequest` of `wifi_provision.h`, which is called on all that has arrived after
every read.  An outcome means that no index at or beyond `len` was read.
-/

def kPortalMaxHead : Nat := 1024

def kPortalMaxBody : Nat := 512

inductive HttpParse where
  /-- Keep reading. -/
  | incomplete
  | ok
  /-- 400 -/
  | bad
  /-- 413 / 431 -/
  | tooLarge
deriving DecidableEq, Repr

structure HttpRequest where
  method : List UInt8
  /-- Without the query string. -/
  path : List UInt8
  body : List UInt8
deriving DecidableEq

/-- The parser between its `return` statements. -/
abbrev Parsing := Reading UInt8 HttpParse

/-- Subtraction of `size_t`, which has 32 bits. -/
def sizeSub (a b : Nat) : Nat := if b ≤ a then a - b else a + 2 ^ 32 - b

/-- How far behind `start` the byte is. -/
def memchr (start : Nat) (c : UInt8) (count : Nat) : Parsing (Option Nat) :=
  find (· == c) start count

def lower (c : UInt8) : UInt8 :=
  if 'A'.toUInt8 ≤ c ∧ c ≤ 'Z'.toUInt8 then c - 'A'.toUInt8 + 'a'.toUInt8 else c

def asciiIEquals (start n : Nat) (b : List UInt8) : Parsing Bool :=
  if b.length ≠ n then pure false else agrees (fun x y => lower x == lower y) start b

/-- From an index on, in so many turns of the loop. -/
def findHeadEnd (len : Nat) : (turns i : Nat) → Parsing (Option Nat)
  | 0, _ => pure none
  | turns + 1, i =>
      if i + 3 < len then do
        if ← agrees (· == ·) i (ascii "\r\n\r\n") then pure (some i)
        else findHeadEnd len turns (i + 1)
      else pure none

structure RequestLine where
  lineLen : Nat
  methodLen : Nat
  targetStart : Nat
  pathLen : Nat

def isMethodByte (c : UInt8) : Bool := decide ('A'.toUInt8 ≤ c ∧ c ≤ 'Z'.toUInt8)

def isTargetByte (c : UInt8) : Bool := decide (0x20 < c ∧ c < 0x7F)

def endsPath (c : UInt8) : Bool := c == '?'.toUInt8 || c == '#'.toUInt8

/-- METHOD SP -/
def readMethod (lineLen : Nat) : Parsing Nat := do
  let methodLen ← orStop .bad (← memchr 0 ' '.toUInt8 lineLen)
  stopIf .bad (methodLen = 0 ∨ 8 < methodLen)
  stopIf .bad ((← find (!isMethodByte ·) 0 methodLen).isSome)
  return methodLen

/-- target SP HTTP/1.x -/
def readTarget (lineLen targetStart : Nat) : Parsing Nat := do
  let targetLen ← orStop .bad (← memchr targetStart ' '.toUInt8 (sizeSub lineLen targetStart))
  stopIf .bad (targetLen = 0)
  stopIf .bad ((← peek targetStart) ≠ '/'.toUInt8)
  let versionStart := targetStart + targetLen + 1
  stopIf .bad (sizeSub lineLen versionStart ≠ 8)
  stopIf .bad ((← slice versionStart 7) ≠ ascii "HTTP/1.")
  stopIf .bad ((← find (!isTargetByte ·) targetStart targetLen).isSome)
  return targetLen

def readPath (targetStart targetLen : Nat) : Parsing Nat := do
  return (← find endsPath targetStart targetLen).getD targetLen

def requestLine (headEnd : Nat) : Parsing RequestLine := do
  let lineLen ← deref (← memchr 0 '\r'.toUInt8 (headEnd + 1))
  stopIf .bad ((← peek (lineLen + 1)) ≠ '\n'.toUInt8)
  let methodLen ← readMethod lineLen
  let targetStart := methodLen + 1
  let targetLen ← readTarget lineLen targetStart
  let pathLen ← readPath targetStart targetLen
  return { lineLen, methodLen, targetStart, pathLen }

def isBlank (c : UInt8) : Bool := c == ' '.toUInt8 || c == '\t'.toUInt8

/-- `while (v < end && blank) v++` -/
def skipBlanks (v «end» : Nat) : Parsing Nat := do
  return v + (← find (!isBlank ·) v («end» - v)).getD («end» - v)

/-- `while (vEnd > v && blank) vEnd--` -/
def trimBlanks (v : Nat) : (vEnd : Nat) → Parsing Nat
  | 0 => pure 0
  | vEnd + 1 =>
      if v < vEnd + 1 then do
        if isBlank (← peek vEnd) then trimBlanks v vEnd else pure (vEnd + 1)
      else pure (vEnd + 1)

/-- The loop over the digits, with so many of them to go. -/
def readLength (i : Nat) : (count contentLength : Nat) → Parsing Nat
  | 0, contentLength => pure contentLength
  | count + 1, contentLength => do
      let c ← peek i
      stopIf .bad (c < '0'.toUInt8 ∨ '9'.toUInt8 < c)
      let contentLength := contentLength * 10 + (c - '0'.toUInt8).toNat
      stopIf .tooLarge (kPortalMaxBody < contentLength)
      readLength (i + 1) count contentLength

/-- From where to where a value goes. -/
def valueBounds (start «end» : Nat) : Parsing (Nat × Nat) := do
  let v ← skipBlanks start «end»
  let vEnd ← trimBlanks v «end»
  return (v, vEnd)

structure Declared where
  haveLength : Bool
  contentLength : Nat

/-- Only Content-Length and Transfer-Encoding matter. -/
def header (p «end» : Nat) (declared : Declared) : Parsing Declared := do
  let nameLen ← orStop .bad (← memchr p ':'.toUInt8 (sizeSub «end» p))
  stopIf .bad (nameLen = 0)
  let (v, vEnd) ← valueBounds (p + nameLen + 1) «end»
  -- no chunked bodies; a form never needs one
  stopIf .bad (← asciiIEquals p nameLen (ascii "transfer-encoding"))
  if ← asciiIEquals p nameLen (ascii "content-length") then
    stopIf .bad (declared.haveLength ∨ v = vEnd)
    let contentLength ← readLength v (vEnd - v) declared.contentLength
    return { haveLength := true, contentLength }
  else return declared

/-- The loop over the lines; it has to end within so many turns. -/
def headers (len headEnd : Nat) : (turns p : Nat) → Declared → Parsing Declared
  | 0, _, _ => deref none
  | turns + 1, p, declared =>
      if p < headEnd + 2 then do
        let e ← memchr p '\r'.toUInt8 (sizeSub (headEnd + 2) p)
        let «end» := (e.map (p + ·)).getD headEnd
        stopIf .bad (len ≤ «end» + 1)
        stopIf .bad ((← peek («end» + 1)) ≠ '\n'.toUInt8)
        let declared ← header p «end» declared
        headers len headEnd turns («end» + 2) declared
      else pure declared

/-- What `out` is given, once all of it has arrived. -/
def readContent (len headEnd : Nat) (line : RequestLine) (contentLength : Nat) : Parsing HttpRequest := do
  let bodyStart := headEnd + 4
  stopIf .incomplete (sizeSub len bodyStart < contentLength)
  let method ← slice 0 line.methodLen
  let path ← slice line.targetStart line.pathLen
  let body ← slice bodyStart contentLength
  return { method, path, body }

def readRequest (len : Nat) : Parsing HttpRequest := do
  match ← findHeadEnd len (kPortalMaxHead + 1) 0 with
  | none => stop (if kPortalMaxHead + 3 < len then .tooLarge else .incomplete)
  | some headEnd =>
      let line ← requestLine headEnd
      let declared ← headers len headEnd (headEnd + 2) (line.lineLen + 2) ⟨false, 0⟩
      readContent len headEnd line declared.contentLength

/-- The verdict, and what is in `out` then. -/
def parseHttpRequest (buf : List UInt8) (out : HttpRequest) : Option (HttpParse × HttpRequest) :=
  (readRequest buf.length buf).map fun
    | .error verdict => (verdict, out)
    | .ok request => (.ok, request)

end Presence.Firmware
