import Mathlib.Data.List.Basic

namespace Presence.Go

/-! # `base64.StdEncoding.DecodeString`

Line ends are skipped, padding is required, and the spare bits of the last
quantum are not checked.
-/

def base64Digit (digit : Char) : Option Nat :=
  if 'A' ≤ digit ∧ digit ≤ 'Z' then some (digit.toNat - 'A'.toNat)
  else if 'a' ≤ digit ∧ digit ≤ 'z' then some (digit.toNat - 'a'.toNat + 26)
  else if '0' ≤ digit ∧ digit ≤ '9' then some (digit.toNat - '0'.toNat + 52)
  else if digit = '+' then some 62
  else if digit = '/' then some 63
  else none

def decodeQuanta : List Char → Option (List UInt8)
  | [] => some []
  | [a, b, '=', '='] => do
      let word := (← base64Digit a) * 64 + (← base64Digit b)
      return [UInt8.ofNat (word / 16)]
  | [a, b, c, '='] => do
      let word := ((← base64Digit a) * 64 + (← base64Digit b)) * 64 + (← base64Digit c)
      return [UInt8.ofNat (word / 1024), UInt8.ofNat (word / 4)]
  | a :: b :: c :: d :: rest => do
      let word := (((← base64Digit a) * 64 + (← base64Digit b)) * 64 + (← base64Digit c)) * 64 +
        (← base64Digit d)
      return [UInt8.ofNat (word / 65536), UInt8.ofNat (word / 256), UInt8.ofNat word] ++
        (← decodeQuanta rest)
  | _ => none

def decodeBase64 (text : String) : Option (List UInt8) :=
  decodeQuanta (text.toList.filter fun char => char != '\n' && char != '\r')

example : decodeBase64 "aGk=\n" = some [104, 105] := by decide

end Presence.Go
