import Presence.Data.FlatJson
import Presence.Firmware.AckText
import Presence.Firmware.NetLoop
import Presence.Firmware.Scanner

namespace Presence.Firmware

open Presence.Data Presence.Data.JsonText Presence.Firmware.NetLoop

/-! # The scanner on objects of one level

What each of the readers makes of an answer whose names and strings are spelled without
escapes.
-/

theorem noEscapedQuote_plainPieces {text : List UInt8} (valid : ∀ c ∈ text, isPlain c = true) :
    NoEscapedQuote (plainPieces text valid) := by
  induction text with
  | nil => exact fun piece member => absurd member List.not_mem_nil
  | cons c rest ih =>
      intro piece member
      rw [plainPieces, List.mem_cons] at member
      rcases member with rfl | later
      · rfl
      · exact ih _ piece later

theorem mapM_plainPieces {text : List UInt8} (valid : ∀ c ∈ text, isPlain c = true) :
    (plainPieces text valid).mapM plainByte = some text := by
  induction text with
  | nil => rfl
  | cons c rest ih =>
      rw [plainPieces, List.mapM_cons, ih]
      rfl

/-- Names without escapes. -/
def PlainNames (fields : List Field) : Prop :=
  ∀ field ∈ fields, ∃ text valid, field.name = plainPieces text valid

theorem plainNames_nil : PlainNames [] := by
  intro field member
  exact absurd member List.not_mem_nil

theorem PlainNames.cons {text : List UInt8} {valid : ∀ c ∈ text, isPlain c = true} {scalar : Scalar}
    {rest : List Field} (plain : PlainNames rest) : PlainNames (⟨plainPieces text valid, scalar⟩ :: rest) :=
  List.forall_mem_cons.mpr ⟨⟨text, valid, rfl⟩, plain⟩

theorem PlainNames.append {fields others : List Field} (plain : PlainNames fields)
    (after : PlainNames others) : PlainNames (fields ++ others) :=
  List.forall_mem_append.mpr ⟨plain, after⟩

section

variable {key : List UInt8} {first field : Field} {rest : List Field} {trail : Blank}

theorem jsonValueStart_flat (trail : Blank) (word : IsKey key) (plain : PlainNames (first :: rest))
    (found : (first :: rest).find? (fun field => spelling field.name == key) = some field) :
    ∃ mark tail, (mark = ','.toUInt8 ∨ mark = '\x7d'.toUInt8) ∧
      jsonValueStart (cString (render (flat first rest) ++ trail.text)) key =
        some (render field.scalar.value ++ mark :: tail) := by
  obtain ⟨mark, tail, closing, entry⟩ := entries_members trail.text found
  refine ⟨mark, tail, closing, ?_⟩
  have unescaped : ∀ name ∈ names (flat first rest), NoEscapedQuote name := by
    rw [names_flat]
    intro name member
    obtain ⟨field, inside, rfl⟩ := List.mem_map.mp member
    obtain ⟨text, valid, same⟩ := plain field inside
    rw [same]
    exact noEscapedQuote_plainPieces valid
  exact @jsonValueStart_of_entry key (flat first rest) noBlank trail _ word unescaped entry

theorem parseJsonString_flat (trail : Blank) (word : IsKey key) (plain : PlainNames (first :: rest))
    (found : (first :: rest).find? (fun field => spelling field.name == key) = some field)
    {text : List UInt8} {valid : ∀ c ∈ text, isPlain c = true}
    (string : field.scalar = .string (plainPieces text valid)) {maxLen : Nat}
    (fits : text.length ≤ maxLen) :
    parseJsonString (render (flat first rest) ++ trail.text) key maxLen = some text := by
  obtain ⟨mark, tail, -, started⟩ := jsonValueStart_flat trail word plain found
  rw [parseJsonString_of_value maxLen started, string]
  change ((plainPieces text valid).mapM plainByte).filter (·.length ≤ maxLen) = some text
  rw [mapM_plainPieces, Option.filter_some, if_pos (by simpa using fits)]

theorem parseJsonBool_flat (trail : Blank) (word : IsKey key) (plain : PlainNames (first :: rest))
    (found : (first :: rest).find? (fun field => spelling field.name == key) = some field)
    {b : Bool} {valid : IsLiteral (bytes (if b then "true" else "false"))}
    (literal : field.scalar = .literal (bytes (if b then "true" else "false")) valid) :
    parseJsonBool (render (flat first rest) ++ trail.text) key = some b := by
  obtain ⟨mark, tail, -, started⟩ := jsonValueStart_flat trail word plain found
  rw [parseJsonBool, started, literal]
  cases b <;> rfl

theorem literal_text (number : Nat) {mark : UInt8} (closing : mark = ','.toUInt8 ∨ mark = '\x7d'.toUInt8)
    (tail : List UInt8) :
    literal (asciiNumerals.text number ++ mark :: tail) = asciiNumerals.text number := by
  have inside : ∀ c ∈ asciiNumerals.text number, (!endsValue c) = true := by
    intro c member
    obtain ⟨digit, counted, rfl⟩ := List.mem_map.mp member
    rw [endsValue_symbol ((canonical_decimalDigits number).below digit counted)]
    rfl
  have ended : (!endsValue mark) = false := by
    rcases closing with rfl | rfl <;> decide
  rw [literal, List.takeWhile_append_of_pos inside, List.takeWhile_cons_of_neg (by simp [ended]),
    List.append_nil]

/-- The digits of a natural number, up to the mark behind them. -/
theorem parseJsonInt_flat (trail : Blank) (word : IsKey key) (plain : PlainNames (first :: rest))
    (found : (first :: rest).find? (fun field => spelling field.name == key) = some field)
    {number : Nat} {valid : IsLiteral (asciiNumerals.text number)}
    (literal : field.scalar = .literal (asciiNumerals.text number) valid) (fits : number < 2 ^ 63) :
    parseJsonInt (render (flat first rest) ++ trail.text) key = some (number : Int) := by
  obtain ⟨mark, tail, closing, started⟩ := jsonValueStart_flat trail word plain found
  rw [literal] at started
  change _ = some (asciiNumerals.text number ++ mark :: tail) at started
  obtain ⟨-, positive, digits, -⟩ := @parts_of_literal _ false number (literal_text number closing tail)
  have nonempty := (canonical_decimalDigits number).nonempty
  have inRange : wrapInt64 (number : Int) = number := wrapInt64_of_range (by omega) (by omega)
  rw [parseJsonInt_eq, started, Option.bind_some]
  simp only [digits, if_neg nonempty, positive, readFrom_decimalDigits, inRange, Bool.false_eq_true,
    if_false]

end

end Presence.Firmware
