import Presence.Data.FlatJson

namespace Presence.Go

open Presence.Data Presence.Data.JsonText

/-! # `encoding/json`

What `json.NewEncoder(w).Encode` writes for a struct of booleans, integers and strings,
with HTML escaping on, as it is by default.  A Go string is its bytes.
-/

/-- `htmlSafeSet`: the ASCII that is copied. -/
def htmlSafe (b : UInt8) : Bool :=
  decide (0x20 ≤ b ∧ b < 0x80) && b != '"'.toUInt8 && b != '\\'.toUInt8 && b != '<'.toUInt8 &&
    b != '>'.toUInt8 && b != '&'.toUInt8

def hexByte (digit : UInt8) : UInt8 :=
  if digit < 10 then '0'.toUInt8 + digit else 'a'.toUInt8 + (digit - 10)

def escapeByte (b : UInt8) : List UInt8 :=
  if htmlSafe b then [b]
  else if b = '"'.toUInt8 ∨ b = '\\'.toUInt8 then ['\\'.toUInt8, b]
  else if b = 0x08 then bytes "\\b"
  else if b = 0x0c then bytes "\\f"
  else if b = 0x0a then bytes "\\n"
  else if b = 0x0d then bytes "\\r"
  else if b = 0x09 then bytes "\\t"
  else bytes "\\u00" ++ [hexByte (b >>> 4), hexByte (b &&& 0xf)]

/-- The second byte of a rune, by its first. -/
def continues (first second : UInt8) : Bool :=
  let low : UInt8 := if first = 0xe0 then 0xa0 else if first = 0xf0 then 0x90 else 0x80
  let high : UInt8 := if first = 0xed then 0x9f else if first = 0xf4 then 0x8f else 0xbf
  decide (low ≤ second ∧ second ≤ high)

def isTail (b : UInt8) : Bool := decide (0x80 ≤ b ∧ b ≤ 0xbf)

/-- How many bytes the rune at the front takes, beyond ASCII; none where
`utf8.DecodeRuneInString` finds no rune. -/
def runeLength : List UInt8 → Option Nat
  | first :: second :: rest =>
      if !continues first second then none
      else if 0xc2 ≤ first ∧ first ≤ 0xdf then some 2
      else if 0xe0 ≤ first ∧ first ≤ 0xef then
        if rest.head?.any isTail then some 3 else none
      else if 0xf0 ≤ first ∧ first ≤ 0xf4 then
        if (rest.take 2).length = 2 ∧ (rest.take 2).all isTail then some 4 else none
      else none
  | _ => none

/-- `appendString` between the quotes; of a rune that has begun, so many bytes are still
copied, or left out. -/
def escapeFrom (copying : Bool) : Nat → List UInt8 → List UInt8
  | _, [] => []
  | left + 1, b :: rest =>
      if copying then b :: escapeFrom copying left rest else escapeFrom copying left rest
  | 0, b :: rest =>
      if b < 0x80 then escapeByte b ++ escapeFrom copying 0 rest
      else
        match runeLength (b :: rest) with
        | none => bytes "\\ufffd" ++ escapeFrom copying 0 rest
        | some length =>
            -- U+2028 and U+2029 end a line in JavaScript
            if (b :: rest).take 3 = [0xe2, 0x80, 0xa8] then
              bytes "\\u2028" ++ escapeFrom false (length - 1) rest
            else if (b :: rest).take 3 = [0xe2, 0x80, 0xa9] then
              bytes "\\u2029" ++ escapeFrom false (length - 1) rest
            else b :: escapeFrom true (length - 1) rest

def encodeString (s : List UInt8) : List UInt8 :=
  '"'.toUInt8 :: (escapeFrom true 0 s ++ ['"'.toUInt8])

def encodeInt (v : Int) : List UInt8 :=
  if v < 0 then '-'.toUInt8 :: asciiNumerals.text v.natAbs else asciiNumerals.text v.natAbs

def encodeBool (b : Bool) : List UInt8 := if b then bytes "true" else bytes "false"

/-- The name of a field and what is written for its value. -/
structure EncodedField where
  name : String
  value : List UInt8

/-- With `omitempty`. -/
def optionalString (name : String) (s : List UInt8) : List EncodedField :=
  if s.isEmpty then [] else [⟨name, encodeString s⟩]

/-- With `omitempty`. -/
def optionalInt (name : String) (v : Int) : List EncodedField := if v = 0 then [] else [⟨name, encodeInt v⟩]

def EncodedField.text (field : EncodedField) : List UInt8 :=
  encodeString (bytes field.name) ++ ':'.toUInt8 :: field.value

def encodeStruct (fields : List EncodedField) : List UInt8 :=
  '\x7b'.toUInt8 :: (listed (fields.map EncodedField.text) ++ ['\x7d'.toUInt8])

/-- `Encode` ends the value with a newline. -/
def encode (fields : List EncodedField) : List UInt8 := encodeStruct fields ++ ['\n'.toUInt8]

/-! ## What it writes is JSON -/

def HtmlSafe (s : List UInt8) : Prop := ∀ b ∈ s, htmlSafe b = true

instance (s : List UInt8) : Decidable (HtmlSafe s) :=
  inferInstanceAs (Decidable (∀ b ∈ s, htmlSafe b = true))

theorem isPlain_of_htmlSafe {b : UInt8} (safe : htmlSafe b = true) : isPlain b = true := by
  simp only [htmlSafe, Bool.and_eq_true, decide_eq_true_eq] at safe
  simp only [isPlain, Bool.and_eq_true, decide_eq_true_eq]
  exact ⟨⟨safe.1.1.1.1.1.1, safe.1.1.1.1.2⟩, safe.1.1.1.2⟩

theorem HtmlSafe.plain {s : List UInt8} (safe : HtmlSafe s) : ∀ c ∈ s, isPlain c = true :=
  fun c member => isPlain_of_htmlSafe (safe c member)

theorem escapeFrom_safe {s : List UInt8} (safe : HtmlSafe s) (copying : Bool) :
    escapeFrom copying 0 s = s := by
  induction s with
  | nil => rfl
  | cons b rest ih =>
      obtain ⟨first, later⟩ := List.forall_mem_cons.mp safe
      have ascii : b < 0x80 := by
        simp only [htmlSafe, Bool.and_eq_true, decide_eq_true_eq] at first
        exact first.1.1.1.1.1.2
      rw [escapeFrom, if_pos ascii, ih later, escapeByte, if_pos first]
      rfl

theorem encodeString_safe {s : List UInt8} (safe : HtmlSafe s) :
    encodeString s = quoted (plainPieces s safe.plain) := by
  rw [encodeString, escapeFrom_safe safe, quoted, spelling_plainPieces]

theorem htmlSafe_append {first second : List UInt8} (safe : HtmlSafe first) (after : HtmlSafe second) :
    HtmlSafe (first ++ second) :=
  List.forall_mem_append.mpr ⟨safe, after⟩

theorem htmlSafe_symbol : ∀ digit < 10, htmlSafe (asciiNumerals.symbol digit) = true := by
  decide

theorem htmlSafe_text (number : Nat) : HtmlSafe (asciiNumerals.text number) := by
  intro c member
  obtain ⟨digit, counted, rfl⟩ := List.mem_map.mp member
  exact htmlSafe_symbol digit ((canonical_decimalDigits number).below digit counted)

/-! The same as a tree, one piece at a time. -/

def stringScalar (s : List UInt8) (safe : HtmlSafe s) : Scalar := .string (plainPieces s safe.plain)

def natScalar (number : Nat) : Scalar :=
  .literal (asciiNumerals.text number) (.inr (.inr (.inr (isNumber_text number))))

theorem isLiteral_bool (b : Bool) : IsLiteral (bytes (if b then "true" else "false")) := by
  cases b with
  | true => exact .inr (.inl rfl)
  | false => exact .inr (.inr (.inl rfl))

def boolScalar (b : Bool) : Scalar := .literal (bytes (if b then "true" else "false")) (isLiteral_bool b)

theorem safeName {name : String} (all : (bytes name).all htmlSafe = true) : HtmlSafe (bytes name) :=
  List.all_eq_true.mp all

/-- A field under a name that needs no escapes. -/
def plainField (name : String) (safe : HtmlSafe (bytes name)) (scalar : Scalar) : Field :=
  ⟨plainPieces (bytes name) safe.plain, scalar⟩

theorem text_plainField {name : String} (safe : HtmlSafe (bytes name)) {scalar : Scalar}
    {value : List UInt8} (same : value = render scalar.value) :
    EncodedField.text ⟨name, value⟩ = (plainField name safe scalar).text := by
  rw [EncodedField.text, Field.text, plainField, encodeString_safe safe, same]

theorem encodeString_scalar {s : List UInt8} (safe : HtmlSafe s) :
    encodeString s = render (stringScalar s safe).value :=
  encodeString_safe safe

theorem encodeInt_scalar {v : Int} (positive : 0 ≤ v) : encodeInt v = render (natScalar v.toNat).value := by
  have same : v.natAbs = v.toNat := by omega
  rw [encodeInt, if_neg (by omega), same]
  rfl

theorem encodeBool_scalar (b : Bool) : encodeBool b = render (boolScalar b).value := by
  cases b <;> rfl

theorem spaces_newline : ∀ c ∈ ['\n'.toUInt8], isSpace c = true := by
  simp [isSpace]

def newline : Blank := ⟨['\n'.toUInt8], spaces_newline⟩

/-- Fields whose names and values are written as these. -/
theorem encode_flat {fields : List EncodedField} {first : Field} {rest : List Field}
    (same : fields.map EncodedField.text = (first :: rest).map Field.text) :
    encode fields = render (flat first rest) ++ newline.text := by
  rw [encode, encodeStruct, same, render_flat]
  rfl

end Presence.Go
