import Mathlib.Algebra.Group.Int.Defs
import Mathlib.Algebra.Group.Nat.Defs
import Presence.Data.Decimal

namespace Presence.Firmware

open Presence.Data

/-! # Numbers as text

`jsonInt` and `appendPadded` of `events_json.h`.  An `int64_t` is an integer here:
no value that reaches them leaves its range.
-/

/-- A string literal of the source. -/
def ascii (literal : String) : List UInt8 := literal.toList.map Char.toUInt8

/-- The loop of `jsonInt` on a number that is not positive, with so much room
left in its buffer; the last digit comes first. -/
def jsonDigits : Nat → Int → List UInt8
  | 0, _ => []
  | room + 1, x =>
      if x = 0 then [] else UInt8.ofNat (48 - x.tmod 10).toNat :: jsonDigits room (x.tdiv 10)

def jsonInt (v : Int) : List UInt8 :=
  if v = 0 then ['0'.toUInt8]
  else
    let negative := v < 0
    let x := if negative then v else -v
    let digits := (jsonDigits 20 x).reverse
    if negative then '-'.toUInt8 :: digits else digits

theorem jsonDigits_neg {room number : Nat} (bounded : number < 10 ^ room) :
    jsonDigits room (-(number : Int)) = (Nat.digits 10 number).map asciiNumerals.symbol := by
  induction room generalizing number with
  | zero =>
      have zero : number = 0 := by simpa using bounded
      subst zero
      simp [jsonDigits]
  | succ room ih =>
      by_cases zero : number = 0
      · subst zero
        simp [jsonDigits]
      · have quotient : (-(number : Int)).tdiv 10 = -((number / 10 : Nat) : Int) := by
          rw [Int.neg_tdiv, Int.ofNat_tdiv]
          rfl
        have remainder : (48 - (-(number : Int)).tmod 10).toNat = 48 + number % 10 := by
          have cast : (number : Int).tmod 10 = ((number % 10 : Nat) : Int) := rfl
          rw [Int.neg_tmod, cast]
          omega
        have smaller : number / 10 < 10 ^ room := by
          rw [Nat.pow_succ] at bounded
          omega
        rw [jsonDigits, if_neg (by omega), quotient, remainder, ih smaller,
          Nat.digits_def' (by decide) (Nat.pos_of_ne_zero zero), List.map_cons]
        rfl

theorem jsonInt_natCast {number : Nat} (bounded : number < 10 ^ 20) :
    jsonInt number = asciiNumerals.text number := by
  by_cases zero : number = 0
  · subst zero
    simp only [jsonInt, Numerals.text, decimalDigits, Int.natCast_zero, if_true]
    rfl
  · have positive : ¬ (number : Int) < 0 := by omega
    rw [jsonInt, if_neg (by omega)]
    simp only [positive, if_false]
    rw [jsonDigits_neg bounded, Numerals.text, decimalDigits, if_neg zero, List.map_reverse]

/-- The loop of `appendPadded`, the last digit first. -/
def paddedDigits : Nat → Int → List UInt8
  | 0, _ => []
  | room + 1, v =>
      UInt8.ofNat (48 + v.tmod 10).toNat :: if v.tdiv 10 ≠ 0 then paddedDigits room (v.tdiv 10) else []

def appendPadded (v : Int) (width : Nat) : List UInt8 :=
  let v := if v < 0 then 0 else v
  let digits := paddedDigits 20 v
  List.replicate (width - digits.length) '0'.toUInt8 ++ digits.reverse

theorem paddedDigits_natCast (room number : Nat) :
    paddedDigits (room + 1) number = asciiNumerals.symbol (number % 10) ::
      if number / 10 ≠ 0 then paddedDigits room ((number / 10 : Nat) : Int) else [] := by
  have quotient : (number : Int).tdiv 10 = ((number / 10 : Nat) : Int) := rfl
  have remainder : (48 + (number : Int).tmod 10).toNat = 48 + number % 10 := by
    have cast : (number : Int).tmod 10 = ((number % 10 : Nat) : Int) := rfl
    rw [cast]
    omega
  rw [paddedDigits, quotient, remainder]
  simp only [ne_eq, Int.natCast_eq_zero]
  rfl

theorem appendPadded_loop {room width number : Nat} (fits : width ≤ room)
    (bounded : number < 10 ^ (width + 1)) :
    List.replicate (width + 1 - (paddedDigits (room + 1) number).length) '0'.toUInt8 ++
        (paddedDigits (room + 1) number).reverse =
      (fixedDigits (width + 1) number).map asciiNumerals.symbol := by
  induction width generalizing room number with
  | zero =>
      have last : number / 10 = 0 := by omega
      simp [paddedDigits_natCast, last, fixedDigits]
  | succ width ih =>
      rw [fixedDigits, List.map_append, paddedDigits_natCast]
      by_cases last : number / 10 = 0
      · rw [last, fixedDigits_zero]
        simp only [ne_eq, not_true_eq_false, if_false, List.length_singleton, List.reverse_singleton,
          List.map_replicate, List.map_singleton]
        rfl
      · obtain ⟨room, rfl⟩ : ∃ smaller, room = smaller + 1 := ⟨room - 1, by omega⟩
        have smaller : number / 10 < 10 ^ (width + 1) := by
          rw [Nat.pow_succ] at bounded
          omega
        have narrower : width ≤ room := by omega
        rw [← ih narrower smaller, if_pos last, List.length_cons, List.reverse_cons,
          Nat.add_sub_add_right, List.append_assoc]
        rfl

theorem appendPadded_natCast {width number : Nat} (positive : 0 < width) (fits : width ≤ 20)
    (bounded : number < 10 ^ width) :
    appendPadded number width = (fixedDigits width number).map asciiNumerals.symbol := by
  obtain ⟨width, rfl⟩ : ∃ smaller, width = smaller + 1 := ⟨width - 1, by omega⟩
  have nonneg : ¬ ((number : Int) < 0) := by omega
  rw [appendPadded, if_neg nonneg]
  exact appendPadded_loop (by omega) bounded

end Presence.Firmware
