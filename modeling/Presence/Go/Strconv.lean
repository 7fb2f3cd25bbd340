import Mathlib.Algebra.Group.Int.Defs
import Mathlib.Algebra.Group.Nat.Defs
import Mathlib.Data.List.Basic

namespace Presence.Go

/-! # `strconv` and `encoding/hex` -/

def decimalDigit (digit : Char) : Option Nat :=
  if '0' ≤ digit ∧ digit ≤ '9' then some (digit.toNat - '0'.toNat) else none

def decimal (value : Nat) : List Char → Option Nat
  | [] => some value
  | digit :: rest =>
      match decimalDigit digit with
      | none => none
      | some units => decimal (value * 10 + units) rest

def inInt64 (value : Int) : Option Int :=
  if -2 ^ 63 ≤ value ∧ value < 2 ^ 63 then some value else none

/-- `ParseInt` in base 10 and 64 bits: one sign at most, at least one digit, any
number of leading zeros. `Atoi` is the same function on a 64-bit machine. -/
def parseInt (text : String) : Option Int :=
  match text.toList with
  | [] | ['+'] | ['-'] => none
  | '+' :: digits => do inInt64 (← decimal 0 digits)
  | '-' :: digits => do inInt64 (-(← decimal 0 digits : Nat))
  | digits => do inInt64 (← decimal 0 digits)

example : parseInt "-007" = some (-7) ∧ parseInt "+" = none ∧ parseInt "1_0" = none ∧
    parseInt "9223372036854775808" = none := by decide

def hexLower (digit : Nat) : Char :=
  Char.ofNat (if digit < 10 then '0'.toNat + digit else 'a'.toNat + (digit - 10))

/-- `hex.EncodeToString`. -/
def encodeHex (bytes : List UInt8) : String :=
  String.ofList (bytes.flatMap fun byte => [hexLower (byte.toNat / 16), hexLower (byte.toNat % 16)])

theorem encodeHex_ne_empty {bytes : List UInt8} (some : 0 < bytes.length) : encodeHex bytes ≠ "" := by
  cases bytes with
  | nil => simp at some
  | cons byte rest =>
      intro empty
      have chars := congrArg String.toList empty
      rw [encodeHex, String.toList_ofList, List.flatMap_cons] at chars
      cases chars

theorem hexLower_injective : ∀ first < 16, ∀ second < 16,
    hexLower first = hexLower second → first = second := by
  decide

theorem encodeHex_injective {bytes others : List UInt8} (same : encodeHex bytes = encodeHex others) :
    bytes = others := by
  have chars := String.ofList_injective same
  induction bytes generalizing others with
  | nil =>
      cases others with
      | nil => rfl
      | cons other rest => cases chars
  | cons byte bytes ih =>
      cases others with
      | nil => cases chars
      | cons other others =>
          have bound := byte.toNat_lt
          have otherBound := other.toNat_lt
          simp only [List.flatMap_cons, List.cons_append, List.nil_append, List.cons.injEq] at chars
          obtain ⟨high, low, rest⟩ := chars
          have upper := hexLower_injective _ (by omega) _ (by omega) high
          have lower := hexLower_injective _ (by omega) _ (by omega) low
          have here : byte = other := UInt8.toNat.inj (by omega)
          rw [here, ih (by rw [encodeHex, encodeHex, rest]) rest]

end Presence.Go
