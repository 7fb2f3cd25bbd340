import Mathlib.Algebra.Group.Int.Defs
import Mathlib.Algebra.Group.Nat.Defs
import Mathlib.Data.List.Basic

namespace Presence.Postgres

/-! # Column types

How Postgres reads a parameter into a column.  pgx sends a Go string as text and
lets the server's input function decide, and encodes a Go integer itself, so
both can refuse a value that the Go type admits.  A refusal is an error of the
statement, and inside a transaction of the whole transaction.
-/

inductive Error where
  | invalidText (column : String)
  | invalidUuid (column : String)
  | invalidEnum (column : String)
  | outOfRange (column : String)
  | checkViolation (constraint : String)
  | uniqueViolation (index : String)
deriving DecidableEq, Repr

def fitsInt2 (value : Int) : Bool := decide (-2 ^ 15 ≤ value ∧ value < 2 ^ 15)

def fitsInt4 (value : Int) : Bool := decide (-2 ^ 31 ≤ value ∧ value < 2 ^ 31)

/-- No text or jsonb value holds a NUL. -/
def validText (text : String) : Bool := text.toList.all (· != '\x00')

/-- timestamptz counts whole microseconds; pgx drops the rest. -/
def timestamptz (instant : Int) : Int := instant - instant % 1000

/-! ## uuid

The input function of the uuid type: 32 hexadecimal digits in either case, a
hyphen allowed after every second byte but the last, and optional braces around
the whole.
-/

abbrev Uuid := BitVec 128

def hexDigit (digit : Char) : Option Nat :=
  if '0' ≤ digit ∧ digit ≤ '9' then some (digit.toNat - '0'.toNat)
  else if 'a' ≤ digit ∧ digit ≤ 'f' then some (digit.toNat - 'a'.toNat + 10)
  else if 'A' ≤ digit ∧ digit ≤ 'F' then some (digit.toNat - 'A'.toNat + 10)
  else none

def skipHyphen : List Char → List Char
  | '-' :: rest => rest
  | text => text

def uuidBytes : (left value : Nat) → List Char → Option (Nat × List Char)
  | 0, value, text => some (value, text)
  | left + 1, value, high :: low :: rest =>
      match hexDigit high, hexDigit low with
      | some upper, some lower =>
          let rest := if left % 2 = 0 ∧ left ≠ 0 then skipHyphen rest else rest
          uuidBytes left (value * 256 + upper * 16 + lower) rest
      | _, _ => none
  | _ + 1, _, _ => none

def uuidIn (text : String) : Option Uuid :=
  match text.toList with
  | '{' :: body =>
      match uuidBytes 16 0 body with
      | some (value, ['}']) => some (BitVec.ofNat 128 value)
      | _ => none
  | body =>
      match uuidBytes 16 0 body with
      | some (value, []) => some (BitVec.ofNat 128 value)
      | _ => none

def hexOut : (digits value : Nat) → List Char
  | 0, _ => []
  | digits + 1, value =>
      hexOut digits (value / 16) ++ ["0123456789abcdef".toList.getD (value % 16) '0']

/-- `id::text`: lower case, hyphens after the bytes 4, 6, 8 and 10. -/
def uuidOut (id : Uuid) : String :=
  let text := hexOut 32 id.toNat
  String.ofList (text.take 8 ++ '-' :: (text.drop 8).take 4 ++ '-' :: (text.drop 12).take 4 ++
    '-' :: (text.drop 16).take 4 ++ '-' :: text.drop 20)

-- one id, three spellings
example : uuidIn "0a1b2c3d-0000-4000-8000-00000000000f" =
    uuidIn "0A1B2C3D-0000-4000-8000-00000000000F" := by decide
example : uuidIn "0a1b2c3d-0000-4000-8000-00000000000f" =
    uuidIn "{0a1b2c3d000040008000-00000000000f}" := by decide
example : (uuidIn "0A1B2C3D-0000-4000-8000-00000000000F").map uuidOut =
    some "0a1b2c3d-0000-4000-8000-00000000000f" := by decide

end Presence.Postgres
