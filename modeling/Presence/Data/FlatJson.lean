import Presence.Data.Decimal
import Presence.Data.JsonText

namespace Presence.Data.JsonText

/-! Objects of one level, written without blanks. -/

inductive Scalar where
  | literal (text : List UInt8) (valid : IsLiteral text)
  | string (pieces : List Piece)

def Scalar.value : Scalar → Text .value
  | .literal text valid => .literal text valid
  | .string pieces => .string pieces

structure Field where
  name : List Piece
  scalar : Scalar

namespace Field

def label (field : Field) : Label := ⟨noBlank, field.name, noBlank, noBlank⟩

def text (field : Field) : List UInt8 :=
  quoted field.name ++ ':'.toUInt8 :: render field.scalar.value

end Field

def members : Field → List Field → Text .members
  | field, [] => .lastMember field.label field.scalar.value noBlank
  | field, next :: rest => .member field.label field.scalar.value noBlank (members next rest)

def flat (first : Field) (rest : List Field) : Text .value := .object (members first rest)

/-- Items with commas between them. -/
def listed : List (List UInt8) → List UInt8
  | [] => []
  | [item] => item
  | item :: next :: rest => item ++ ','.toUInt8 :: listed (next :: rest)

theorem render_members (first : Field) (rest : List Field) :
    render (members first rest) = listed ((first :: rest).map Field.text) := by
  induction rest generalizing first with
  | nil => simp [members, render, Field.label, Label.render, noBlank, listed, Field.text]
  | cons next rest ih =>
      rw [members, render, ih]
      simp [Field.label, Label.render, noBlank, listed, Field.text]

theorem render_flat (first : Field) (rest : List Field) :
    render (flat first rest) =
      '\x7b'.toUInt8 :: (listed ((first :: rest).map Field.text) ++ ['\x7d'.toUInt8]) := by
  rw [flat, render, render_members]

@[simp] theorem Scalar.names_value (scalar : Scalar) : names scalar.value = [] := by
  cases scalar <;> rfl

@[simp] theorem Scalar.entries_value (key : List UInt8) (scalar : Scalar) (after : List UInt8) :
    entries key scalar.value after = [] := by
  cases scalar <;> rfl

theorem names_members (first : Field) (rest : List Field) :
    names (members first rest) = (first :: rest).map Field.name := by
  induction rest generalizing first with
  | nil => simp [members, names, Field.label]
  | cons next rest ih =>
      rw [members, names, ih]
      simp [Field.label]

theorem names_flat (first : Field) (rest : List Field) :
    names (flat first rest) = (first :: rest).map Field.name :=
  names_members first rest

/-- The first value under a name, and the comma or the brace behind it. -/
theorem entries_members {key : List UInt8} {first field : Field} {rest : List Field}
    (trail : List UInt8)
    (found : (first :: rest).find? (fun field => spelling field.name == key) = some field) :
    ∃ mark tail, (mark = ','.toUInt8 ∨ mark = '\x7d'.toUInt8) ∧
      (entries key (members first rest) ('\x7d'.toUInt8 :: trail)).head? =
        some (field.scalar.value, render field.scalar.value ++ mark :: tail) := by
  induction rest generalizing first with
  | nil =>
      rw [List.find?_cons] at found
      split at found
      next here =>
        cases found
        refine ⟨_, trail, .inr rfl, ?_⟩
        simp [members, entries, Field.label, noBlank, eq_of_beq here]
      next => cases found
  | cons next rest ih =>
      rw [List.find?_cons] at found
      split at found
      next here =>
        cases found
        refine ⟨_, render (members next rest) ++ '\x7d'.toUInt8 :: trail, .inl rfl, ?_⟩
        simp [members, entries, Field.label, noBlank, eq_of_beq here]
      next other =>
        obtain ⟨mark, tail, closing, later⟩ := ih found
        refine ⟨mark, tail, closing, ?_⟩
        have different : spelling first.name ≠ key := fun same => by simp [same] at other
        simpa [members, entries, Field.label, different] using later

/-! ## Numbers -/

theorem isDigit_symbol : ∀ digit < 10, isDigit (asciiNumerals.symbol digit) = true := by
  decide

theorem symbol_eq_zero : ∀ digit < 10, asciiNumerals.symbol digit = '0'.toUInt8 → digit = 0 := by
  decide

/-- A natural number is written as JSON wants it. -/
theorem isNumber_text (number : Nat) : IsNumber (asciiNumerals.text number) := by
  have canonical := canonical_decimalDigits number
  have digits : IsDigits (asciiNumerals.text number) := by
    refine ⟨by simpa [Numerals.text] using canonical.nonempty, fun c member => ?_⟩
    obtain ⟨digit, inside, rfl⟩ := List.mem_map.mp member
    exact isDigit_symbol digit (canonical.below digit inside)
  refine ⟨[], asciiNumerals.text number, [], [], by simp, .inl rfl, ?_, .inl rfl, .inl rfl⟩
  by_cases zero : (decimalDigits number).head? = some 0
  · rw [Numerals.text, canonical.leading zero]
    exact .inl rfl
  · refine .inr ⟨digits, fun first => zero ?_⟩
    rw [Numerals.text, List.head?_map, Option.map_eq_some_iff] at first
    obtain ⟨digit, leading, same⟩ := first
    have small := canonical.below digit (List.mem_of_mem_head? leading)
    rw [leading, symbol_eq_zero digit small same]

end Presence.Data.JsonText
