import Mathlib.Data.List.Basic
import Presence.Data.Bytes

namespace Presence.Data.JsonText

/-! JSON texts with their layout.

A `Text` is a derivation in the grammar of RFC 8259: nothing but the texts of the
grammar can be built, and all of them can.  Bytes from 128 on stand for themselves
in strings, whatever they encode.
-/

def isSpace (c : UInt8) : Bool :=
  c == ' '.toUInt8 || c == '\t'.toUInt8 || c == '\n'.toUInt8 || c == '\r'.toUInt8

def isDigit (c : UInt8) : Bool := decide ('0'.toUInt8 ≤ c ∧ c ≤ '9'.toUInt8)

def isHex (c : UInt8) : Bool :=
  isDigit c || decide ('a'.toUInt8 ≤ c ∧ c ≤ 'f'.toUInt8 ∨ 'A'.toUInt8 ≤ c ∧ c ≤ 'F'.toUInt8)

/-- A byte that stands for itself in a string. -/
def isPlain (c : UInt8) : Bool := decide (0x20 ≤ c) && c != '"'.toUInt8 && c != '\\'.toUInt8

/-- What may follow a backslash, but for `u`. -/
def isMark (c : UInt8) : Bool :=
  c == '"'.toUInt8 || c == '\\'.toUInt8 || c == '/'.toUInt8 || c == 'b'.toUInt8 ||
    c == 'f'.toUInt8 || c == 'n'.toUInt8 || c == 'r'.toUInt8 || c == 't'.toUInt8

structure Blank where
  text : List UInt8
  spaces : ∀ c ∈ text, isSpace c = true

theorem spaces_nil : ∀ c ∈ ([] : List UInt8), isSpace c = true := List.forall_mem_nil _

def noBlank : Blank := ⟨[], spaces_nil⟩

/-! ## Strings -/

inductive Piece where
  | plain (byte : UInt8) (valid : isPlain byte = true)
  | escape (mark : UInt8) (valid : isMark mark = true)
  | unicode (digits : List UInt8) (four : digits.length = 4) (valid : ∀ c ∈ digits, isHex c = true)

def Piece.text : Piece → List UInt8
  | .plain byte _ => [byte]
  | .escape mark _ => ['\\'.toUInt8, mark]
  | .unicode digits _ _ => '\\'.toUInt8 :: 'u'.toUInt8 :: digits

/-- A string between its quotes, as it is spelled. -/
def spelling (pieces : List Piece) : List UInt8 := pieces.flatMap Piece.text

def quoted (pieces : List Piece) : List UInt8 := '"'.toUInt8 :: (spelling pieces ++ ['"'.toUInt8])

/-- A string without escapes. -/
def plainPieces : (text : List UInt8) → (∀ c ∈ text, isPlain c = true) → List Piece
  | [], _ => []
  | c :: rest, valid =>
      .plain c (valid c List.mem_cons_self) ::
        plainPieces rest fun other member => valid other (List.mem_cons_of_mem c member)

theorem spelling_plainPieces {text : List UInt8} (valid : ∀ c ∈ text, isPlain c = true) :
    spelling (plainPieces text valid) = text := by
  induction text with
  | nil => rfl
  | cons c rest ih =>
      rw [plainPieces, spelling, List.flatMap_cons, ← spelling, ih]
      rfl

/-! ## Numbers -/

def IsDigits (text : List UInt8) : Prop := text ≠ [] ∧ ∀ c ∈ text, isDigit c = true

structure IsNumber (text : List UInt8) : Prop where
  parts : ∃ sign whole fraction exponent : List UInt8, text = sign ++ whole ++ fraction ++ exponent ∧
    (sign = [] ∨ sign = ['-'.toUInt8]) ∧
    (whole = ['0'.toUInt8] ∨ IsDigits whole ∧ whole.head? ≠ some '0'.toUInt8) ∧
    (fraction = [] ∨ ∃ digits, fraction = '.'.toUInt8 :: digits ∧ IsDigits digits) ∧
    (exponent = [] ∨ ∃ mark plus digits, exponent = mark :: plus ++ digits ∧
      (mark = 'e'.toUInt8 ∨ mark = 'E'.toUInt8) ∧
      (plus = [] ∨ plus = ['+'.toUInt8] ∨ plus = ['-'.toUInt8]) ∧ IsDigits digits)

def bytes (word : String) : List UInt8 := word.toList.map Char.toUInt8

def IsLiteral (text : List UInt8) : Prop :=
  text = bytes "null" ∨ text = bytes "true" ∨ text = bytes "false" ∨ IsNumber text

/-! ## Texts -/

inductive Symbol where
  | value
  | elements
  | members

/-- The name of a member with everything up to its value. -/
structure Label where
  before : Blank
  name : List Piece
  between : Blank
  ahead : Blank

inductive Text : Symbol → Type where
  | literal (text : List UInt8) (valid : IsLiteral text) : Text .value
  | string (pieces : List Piece) : Text .value
  | emptyArray (blank : Blank) : Text .value
  | array (elements : Text .elements) : Text .value
  | emptyObject (blank : Blank) : Text .value
  | object (members : Text .members) : Text .value
  | lastElement (before : Blank) (value : Text .value) (after : Blank) : Text .elements
  | element (before : Blank) (value : Text .value) (after : Blank) (rest : Text .elements) :
      Text .elements
  | lastMember (label : Label) (value : Text .value) (after : Blank) : Text .members
  | member (label : Label) (value : Text .value) (after : Blank) (rest : Text .members) :
      Text .members

def Label.render (label : Label) : List UInt8 :=
  label.before.text ++ quoted label.name ++ label.between.text ++ ':'.toUInt8 :: label.ahead.text

def render : {symbol : Symbol} → Text symbol → List UInt8
  | _, .literal text _ => text
  | _, .string pieces => quoted pieces
  | _, .emptyArray blank => '['.toUInt8 :: (blank.text ++ [']'.toUInt8])
  | _, .array elements => '['.toUInt8 :: (render elements ++ [']'.toUInt8])
  | _, .emptyObject blank => '\x7b'.toUInt8 :: (blank.text ++ ['\x7d'.toUInt8])
  | _, .object members => '\x7b'.toUInt8 :: (render members ++ ['\x7d'.toUInt8])
  | _, .lastElement before value after => before.text ++ render value ++ after.text
  | _, .element before value after rest =>
      before.text ++ render value ++ after.text ++ ','.toUInt8 :: render rest
  | _, .lastMember label value after => label.render ++ render value ++ after.text
  | _, .member label value after rest =>
      label.render ++ render value ++ after.text ++ ','.toUInt8 :: render rest

/-- The names of all members, the inner ones too. -/
def names : {symbol : Symbol} → Text symbol → List (List Piece)
  | _, .literal .. => []
  | _, .string _ => []
  | _, .emptyArray _ => []
  | _, .array elements => names elements
  | _, .emptyObject _ => []
  | _, .object members => names members
  | _, .lastElement _ value _ => names value
  | _, .element _ value _ rest => names value ++ names rest
  | _, .lastMember label value _ => label.name :: names value
  | _, .member label value _ rest => label.name :: (names value ++ names rest)

/-- The values of the members whose names are spelled so, each with the text that starts
with it when this text is followed by another. -/
def entries (key : List UInt8) : {symbol : Symbol} → Text symbol → List UInt8 →
    List (Text .value × List UInt8)
  | _, .literal .., _ => []
  | _, .string _, _ => []
  | _, .emptyArray _, _ => []
  | _, .array elements, after => entries key elements (']'.toUInt8 :: after)
  | _, .emptyObject _, _ => []
  | _, .object members, after => entries key members ('\x7d'.toUInt8 :: after)
  | _, .lastElement _ value blank, after => entries key value (blank.text ++ after)
  | _, .element _ value blank rest, after =>
      entries key value (blank.text ++ ','.toUInt8 :: (render rest ++ after)) ++ entries key rest after
  | _, .lastMember label value blank, after =>
      (if spelling label.name = key then [(value, render value ++ (blank.text ++ after))] else []) ++
        entries key value (blank.text ++ after)
  | _, .member label value blank rest, after =>
      (if spelling label.name = key then
        [(value, render value ++ (blank.text ++ ','.toUInt8 :: (render rest ++ after)))]
      else []) ++ entries key value (blank.text ++ ','.toUInt8 :: (render rest ++ after)) ++
        entries key rest after

/-- Of a member that is found, the text starts with its value and goes to the end. -/
theorem entries_suffix {key : List UInt8} {symbol : Symbol} {text : Text symbol} {after : List UInt8}
    {entry : Text .value × List UInt8} (found : entry ∈ entries key text after) :
    (∃ rest, entry.2 = render entry.1 ++ rest) ∧ entry.2 <:+ render text ++ after := by
  induction text generalizing after with
  | literal text valid => cases found
  | string pieces => cases found
  | emptyArray blank => cases found
  | array elements ih =>
      obtain ⟨starts, suffix⟩ := ih found
      rw [render, List.cons_append, List.append_assoc]
      exact ⟨starts, suffix.trans (List.suffix_cons ..)⟩
  | emptyObject blank => cases found
  | object members ih =>
      obtain ⟨starts, suffix⟩ := ih found
      rw [render, List.cons_append, List.append_assoc]
      exact ⟨starts, suffix.trans (List.suffix_cons ..)⟩
  | lastElement before value blank ih =>
      obtain ⟨starts, suffix⟩ := ih found
      rw [render, List.append_assoc, List.append_assoc]
      exact ⟨starts, suffix.trans (List.suffix_append ..)⟩
  | element before value blank rest first later =>
      rw [render, List.append_assoc, List.append_assoc, List.append_assoc]
      rcases List.mem_append.mp found with inner | beyond
      · obtain ⟨starts, suffix⟩ := first inner
        exact ⟨starts, suffix.trans (List.suffix_append ..)⟩
      · obtain ⟨starts, suffix⟩ := later beyond
        refine ⟨starts, suffix.trans ?_⟩
        rw [List.cons_append]
        exact (List.suffix_cons ..).trans ((List.suffix_append ..).trans
          ((List.suffix_append ..).trans (List.suffix_append ..)))
  | lastMember label value blank ih =>
      rw [render, List.append_assoc, List.append_assoc]
      rcases List.mem_append.mp found with here | inner
      · split at here
        case isTrue =>
          cases List.mem_singleton.mp here
          exact ⟨⟨_, rfl⟩, List.suffix_append ..⟩
        case isFalse => cases here
      · obtain ⟨starts, suffix⟩ := ih inner
        exact ⟨starts, suffix.trans (List.suffix_append ..)⟩
  | member label value blank rest first later =>
      rw [render, List.append_assoc, List.append_assoc, List.append_assoc]
      rw [entries, List.mem_append, List.mem_append] at found
      rcases found with (here | inner) | beyond
      · split at here
        case isTrue =>
          cases List.mem_singleton.mp here
          exact ⟨⟨_, rfl⟩, List.suffix_append ..⟩
        case isFalse => cases here
      · obtain ⟨starts, suffix⟩ := first inner
        exact ⟨starts, suffix.trans (List.suffix_append ..)⟩
      · obtain ⟨starts, suffix⟩ := later beyond
        refine ⟨starts, suffix.trans ?_⟩
        rw [List.cons_append]
        exact (List.suffix_cons ..).trans ((List.suffix_append ..).trans
          ((List.suffix_append ..).trans (List.suffix_append ..)))

/-! ## Bytes -/

/-- A byte of a literal. -/
def isSolid (c : UInt8) : Bool := !isSpace c && c != '"'.toUInt8 && c != 0

theorem isSolid_of_isDigit {c : UInt8} : isDigit c = true → isSolid c = true := by
  refine @forall_byte (fun c => isDigit c = true → isSolid c = true) ?_ c
  decide +kernel

theorem isNumber_solid {text : List UInt8} (number : IsNumber text) :
    text ≠ [] ∧ ∀ c ∈ text, isSolid c = true := by
  obtain ⟨sign, whole, fraction, exponent, rfl, signed, digits, fractional, scaled⟩ := number.parts
  have solidDigits {digits : List UInt8} (some : IsDigits digits) : ∀ c ∈ digits, isSolid c = true :=
    fun c member => isSolid_of_isDigit (some.2 c member)
  have solidSign : ∀ c ∈ sign, isSolid c = true := by
    rcases signed with rfl | rfl <;> decide +kernel
  have solidWhole : whole ≠ [] ∧ ∀ c ∈ whole, isSolid c = true := by
    rcases digits with rfl | ⟨digits, -⟩
    · decide +kernel
    · exact ⟨digits.1, solidDigits digits⟩
  have solidFraction : ∀ c ∈ fraction, isSolid c = true := by
    rcases fractional with rfl | ⟨digits, rfl, some⟩
    · simp
    · exact List.forall_mem_cons.mpr ⟨by decide, solidDigits some⟩
  have solidExponent : ∀ c ∈ exponent, isSolid c = true := by
    rcases scaled with rfl | ⟨mark, plus, digits, rfl, marked, signed, some⟩
    · simp
    · have solidMark : isSolid mark = true := by
        rcases marked with rfl | rfl <;> decide
      have solidPlus : ∀ c ∈ plus, isSolid c = true := by
        rcases signed with rfl | rfl | rfl <;> decide +kernel
      exact List.forall_mem_append.mpr
        ⟨List.forall_mem_cons.mpr ⟨solidMark, solidPlus⟩, solidDigits some⟩
  refine ⟨by simp [solidWhole.1], ?_⟩
  simp only [List.forall_mem_append]
  exact ⟨⟨⟨solidSign, solidWhole.2⟩, solidFraction⟩, solidExponent⟩

theorem isLiteral_solid {text : List UInt8} (literal : IsLiteral text) :
    text ≠ [] ∧ ∀ c ∈ text, isSolid c = true := by
  rcases literal with rfl | rfl | rfl | number
  · decide +kernel
  · decide +kernel
  · decide +kernel
  · exact isNumber_solid number

/-- Neither empty nor starting with a space. -/
theorem render_head (value : Text .value) :
    ∃ c rest, render value = c :: rest ∧ isSpace c = false := by
  cases value with
  | literal text valid =>
      obtain ⟨nonempty, solid⟩ := isLiteral_solid valid
      obtain ⟨c, rest, rfl⟩ := List.exists_cons_of_ne_nil nonempty
      have first := solid c (by simp)
      simp only [isSolid, Bool.and_eq_true, Bool.not_eq_true'] at first
      exact ⟨c, rest, rfl, first.1.1⟩
  | string pieces => exact ⟨_, _, rfl, by decide⟩
  | emptyArray blank => exact ⟨_, _, rfl, by decide⟩
  | array elements => exact ⟨_, _, rfl, by decide⟩
  | emptyObject blank => exact ⟨_, _, rfl, by decide⟩
  | object members => exact ⟨_, _, rfl, by decide⟩

/-- No text has a NUL in it. -/
def NoNul (text : List UInt8) : Prop := ∀ c ∈ text, c ≠ 0

theorem noNul_append {first second : List UInt8} :
    NoNul (first ++ second) ↔ NoNul first ∧ NoNul second :=
  List.forall_mem_append

theorem noNul_cons {c : UInt8} {text : List UInt8} : NoNul (c :: text) ↔ c ≠ 0 ∧ NoNul text :=
  List.forall_mem_cons

theorem Blank.noNul (blank : Blank) : NoNul blank.text := by
  intro c member
  rintro rfl
  have space := blank.spaces 0 member
  exact absurd space (by decide)

theorem quoted_noNul (pieces : List Piece) : NoNul (quoted pieces) := by
  have piece (piece : Piece) : NoNul piece.text := by
    cases piece with
    | plain byte valid =>
        rintro c member rfl
        rw [← List.mem_singleton.mp member] at valid
        exact absurd valid (by decide)
    | escape mark valid =>
        refine noNul_cons.mpr ⟨by decide, ?_⟩
        rintro c member rfl
        rw [← List.mem_singleton.mp member] at valid
        exact absurd valid (by decide)
    | unicode digits four valid =>
        refine noNul_cons.mpr ⟨by decide, noNul_cons.mpr ⟨by decide, ?_⟩⟩
        rintro c member rfl
        exact absurd (valid 0 member) (by decide)
  refine noNul_cons.mpr ⟨by decide, noNul_append.mpr ⟨?_, noNul_cons.mpr ⟨by decide, by simp [NoNul]⟩⟩⟩
  intro c member
  obtain ⟨origin, -, inside⟩ := List.mem_flatMap.mp member
  exact piece origin c inside

theorem Label.noNul (label : Label) : NoNul label.render := by
  have colon : ':'.toUInt8 ≠ 0 := by decide
  simp only [Label.render, noNul_append, noNul_cons]
  exact ⟨⟨⟨label.before.noNul, quoted_noNul label.name⟩, label.between.noNul⟩, colon, label.ahead.noNul⟩

theorem render_noNul {symbol : Symbol} (text : Text symbol) : NoNul (render text) := by
  have nil : NoNul [] := by simp [NoNul]
  have comma : ','.toUInt8 ≠ 0 := by decide
  induction text with
  | literal text valid =>
      intro c member
      have solid := (isLiteral_solid valid).2 c member
      simp only [isSolid, Bool.and_eq_true, bne_iff_ne] at solid
      exact solid.2
  | string pieces => exact quoted_noNul pieces
  | emptyArray blank =>
      simp only [render, noNul_append, noNul_cons]
      exact ⟨by decide, blank.noNul, by decide, nil⟩
  | array elements ih =>
      simp only [render, noNul_append, noNul_cons]
      exact ⟨by decide, ih, by decide, nil⟩
  | emptyObject blank =>
      simp only [render, noNul_append, noNul_cons]
      exact ⟨by decide, blank.noNul, by decide, nil⟩
  | object members ih =>
      simp only [render, noNul_append, noNul_cons]
      exact ⟨by decide, ih, by decide, nil⟩
  | lastElement before value after ih =>
      simp only [render, noNul_append]
      exact ⟨⟨before.noNul, ih⟩, after.noNul⟩
  | element before value after rest first later =>
      simp only [render, noNul_append, noNul_cons]
      exact ⟨⟨⟨before.noNul, first⟩, after.noNul⟩, comma, later⟩
  | lastMember label value after ih =>
      simp only [render, noNul_append]
      exact ⟨⟨label.noNul, ih⟩, after.noNul⟩
  | member label value after rest first later =>
      simp only [render, noNul_append, noNul_cons]
      exact ⟨⟨⟨label.noNul, first⟩, after.noNul⟩, comma, later⟩

end Presence.Data.JsonText
