import Presence.Firmware.Provision

namespace Presence.Firmware

open Presence.Data

/-! # Reading an ack

`parseJsonInt` takes a sign and the digits behind it for the number, whatever it is
that follows them and however many they are.
-/

/-! ## The code -/

def parseAckThrough (json : List UInt8) : Int :=
  (parseJsonInt json (ascii "ack_through")).getD (-1)

/-- What `flushEvents` gives to `ackThrough` after an answer with status 200. -/
def flushedAck (resp : List UInt8) : Option UInt64 :=
  let ack := parseAckThrough resp
  if ack > 0 then some (.ofNat ack.toNat) else none

/-! ## What the server wrote -/

/-- What ends a number in JSON. -/
def endsValue (c : UInt8) : Bool :=
  isJsonSpace c || c == ','.toUInt8 || c == '\x7d'.toUInt8 || c == ']'.toUInt8

/-- The literal a value starts with. -/
def literal (value : List UInt8) : List UInt8 := value.takeWhile (!endsValue ·)

/-- `-?(0|[1-9][0-9]*)` -/
def IsIntLiteral (text : List UInt8) (number : Int) : Prop :=
  ∃ magnitude : Nat, text = asciiNumerals.text magnitude ∧ number = magnitude ∨
    text = '-'.toUInt8 :: asciiNumerals.text magnitude ∧ number = -magnitude

/-- A number that was read is the one the server wrote behind the key. -/
def ReadExactly (json key : List UInt8) : Prop :=
  ∀ out, parseJsonInt json key = some out →
    ∃ value, jsonValueStart (cString json) key = some value ∧ IsIntLiteral (literal value) out ∧
      -2 ^ 63 ≤ out ∧ out < 2 ^ 63

/-! ## What the code takes for a number -/

def isNegative (value : List UInt8) : Bool := value.head? == some '-'.toUInt8

/-- Behind a sign. -/
def unsigned : List UInt8 → List UInt8
  | [] => []
  | c :: rest => if c == '-'.toUInt8 || c == '+'.toUInt8 then rest else c :: rest

def valueDigits (value : List UInt8) : List Nat := (asciiNumerals.scan (unsigned value)).1

def afterDigits (value : List UInt8) : List UInt8 := (asciiNumerals.scan (unsigned value)).2

/-- What is read as a number without being the literal of one: a plus sign, a zero too
many, a fraction, an exponent or anything else behind the digits, more than an
`int64_t` holds. -/
def Misleading (value : List UInt8) : Prop :=
  valueDigits value ≠ [] ∧
    (value.head? = some '+'.toUInt8 ∨
      ((valueDigits value).head? = some 0 ∧ valueDigits value ≠ [0]) ∨
      (∃ c ∈ (afterDigits value).head?, endsValue c = false) ∨
      (if isNegative value then 2 ^ 63 < readFrom 0 (valueDigits value)
        else 2 ^ 63 ≤ readFrom 0 (valueDigits value)))

theorem isDecimal_iff (c : UInt8) : isDecimal c = true ↔ ∃ digit, asciiNumerals.value c = some digit := by
  have range : isDecimal c = true ↔ 48 ≤ c.toNat ∧ c.toNat ≤ 57 := by
    simp only [isDecimal, decide_eq_true_eq, UInt8.le_iff_toNat_le]
    rfl
  rw [range]
  simp [asciiNumerals]

theorem digit_value {c : UInt8} {digit : Nat} (numeral : asciiNumerals.value c = some digit) :
    ((c - '0'.toUInt8).toNat : Int) = digit := by
  obtain ⟨small, symbol⟩ := asciiNumerals.symbol_value numeral
  have all : ∀ digit < 10, (asciiNumerals.symbol digit - '0'.toUInt8).toNat = digit := by decide
  rw [← symbol, all digit small]

theorem wrapInt64_step (value digit : Int) :
    wrapInt64 (wrapInt64 value * 10 + digit) = wrapInt64 (value * 10 + digit) := by
  simp only [wrapInt64]
  rw [← Int.bmod_add_bmod, Int.bmod_mul_bmod, Int.bmod_add_bmod]

theorem wrapInt64_neg (value : Int) : wrapInt64 (-wrapInt64 value) = wrapInt64 (-value) := by
  simp only [wrapInt64]
  rw [← Int.neg_one_mul, Int.mul_bmod_bmod, Int.neg_one_mul]

/-- The digits are counted up, and the result wraps. -/
theorem readInt64_eq (text : List UInt8) (value : Nat) :
    readInt64 (wrapInt64 value) text = wrapInt64 (readFrom value (asciiNumerals.scan text).1 : Nat) := by
  induction text generalizing value with
  | nil => rfl
  | cons c rest ih =>
      cases numeral : asciiNumerals.value c with
      | none =>
          have other : ¬ isDecimal c = true := by
            rw [isDecimal_iff, numeral]
            simp
          rw [Numerals.scan_of_none rest numeral, readInt64, if_neg other]
          rfl
      | some digit =>
          have decimal : isDecimal c = true := (isDecimal_iff c).mpr ⟨digit, numeral⟩
          rw [Numerals.scan_of_some rest numeral, readInt64, if_pos decimal, digit_value numeral,
            wrapInt64_step, readFrom_cons, ← ih, Int.natCast_add, Int.natCast_mul]
          rfl

theorem wrapInt64_of_range {value : Int} (low : -2 ^ 63 ≤ value) (high : value < 2 ^ 63) :
    wrapInt64 value = value := by
  rw [wrapInt64, Int.bmod_eq_of_le] <;> omega

/-- The digits of a value, and the sign before them. -/
theorem value_parts (value : List UInt8) :
    value = (if value.head? = some '+'.toUInt8 then ['+'.toUInt8] else
        if isNegative value then ['-'.toUInt8] else []) ++
      ((valueDigits value).map asciiNumerals.symbol ++ afterDigits value) := by
  rw [valueDigits, afterDigits, ← Numerals.scan_text]
  cases value with
  | nil => rfl
  | cons c rest =>
      simp only [List.head?_cons, Option.some.injEq, isNegative, unsigned]
      by_cases plus : c = '+'.toUInt8
      · subst plus
        rfl
      · by_cases minus : c = '-'.toUInt8
        · subst minus
          rfl
        · simp [plus, minus]

/-- What is returned: the digits, wrapped around, under the sign. -/
theorem parseJsonInt_eq (json key : List UInt8) :
    parseJsonInt json key = (jsonValueStart (cString json) key).bind fun value =>
      if valueDigits value = [] then none
      else
        let magnitude := wrapInt64 (readFrom 0 (valueDigits value) : Nat)
        some (if isNegative value then wrapInt64 (-magnitude) else magnitude) := by
  rw [parseJsonInt]
  cases jsonValueStart (cString json) key with
  | none => rfl
  | some value =>
      cases value with
      | nil => rfl
      | cons c rest =>
          have digits : (if c == '-'.toUInt8 || c == '+'.toUInt8 then rest else c :: rest) =
              unsigned (c :: rest) := rfl
          have started : ((unsigned (c :: rest)).head?.any isDecimal = true) ↔
              valueDigits (c :: rest) ≠ [] := by
            rw [valueDigits]
            cases unsigned (c :: rest) with
            | nil => simp [Numerals.scan]
            | cons d later =>
                rw [List.head?_cons, Option.any_some, isDecimal_iff]
                cases numeral : asciiNumerals.value d with
                | none => simp [Numerals.scan_of_none later numeral]
                | some digit => simp [Numerals.scan_of_some later numeral]
          have read : readInt64 0 (unsigned (c :: rest)) =
              wrapInt64 (readFrom 0 (valueDigits (c :: rest)) : Nat) :=
            readInt64_eq (unsigned (c :: rest)) 0
          simp only [digits, Option.bind_some, read]
          by_cases missing : valueDigits (c :: rest) = []
          · rw [if_neg (fun some => started.mp some missing), if_pos missing]
          · rw [if_pos (started.mpr missing), if_neg missing]
            rfl

/-! ## Exactness -/

theorem endsValue_symbol {digit : Nat} (small : digit < 10) :
    endsValue (asciiNumerals.symbol digit) = false := by
  have all : ∀ digit < 10, endsValue (asciiNumerals.symbol digit) = false := by decide
  exact all digit small

theorem value_of_endsValue {c : UInt8} (ended : endsValue c = true) : asciiNumerals.value c = none := by
  cases numeral : asciiNumerals.value c with
  | none => rfl
  | some digit =>
      obtain ⟨small, symbol⟩ := asciiNumerals.symbol_value numeral
      rw [← symbol, endsValue_symbol small] at ended
      cases ended

/-- With nothing that misleads, the literal is the sign and the digits. -/
theorem literal_eq {value : List UInt8} (plus : value.head? ≠ some '+'.toUInt8)
    (ended : ∀ c ∈ (afterDigits value).head?, endsValue c = true) :
    literal value = (if isNegative value then ['-'.toUInt8] else []) ++
      (valueDigits value).map asciiNumerals.symbol := by
  have parts := value_parts value
  rw [if_neg plus, ← List.append_assoc] at parts
  have inside : ∀ c ∈ (if isNegative value then ['-'.toUInt8] else []) ++
      (valueDigits value).map asciiNumerals.symbol, (!endsValue c) = true := by
    intro c member
    rcases List.mem_append.mp member with sign | digit
    · split at sign
      case isTrue =>
        rw [List.mem_singleton.mp sign]
        decide
      case isFalse => cases sign
    · obtain ⟨counted, scanned, rfl⟩ := List.mem_map.mp digit
      rw [endsValue_symbol (Numerals.scan_below _ counted scanned)]
      rfl
  have stopped : (afterDigits value).takeWhile (!endsValue ·) = [] := by
    cases after : afterDigits value with
    | nil => rfl
    | cons c rest =>
        rw [List.takeWhile_cons_of_neg]
        simp [ended c (by simp [after])]
  rw [literal]
  nth_rewrite 1 [parts]
  rw [List.takeWhile_append_of_pos inside, stopped, List.append_nil]

/-- A literal of a number is all there is of it. -/
theorem parts_of_literal {value : List UInt8} {negative : Bool} {magnitude : Nat}
    (written : literal value =
      (if negative then ['-'.toUInt8] else []) ++ asciiNumerals.text magnitude) :
    value.head? ≠ some '+'.toUInt8 ∧ isNegative value = negative ∧
      valueDigits value = decimalDigits magnitude ∧
      ∀ c ∈ (afterDigits value).head?, endsValue c = true := by
  obtain ⟨nonempty, below, -⟩ := canonical_decimalDigits magnitude
  obtain ⟨after, split, ended⟩ : ∃ after, value = literal value ++ after ∧
      ∀ c ∈ after.head?, endsValue c = true := by
    refine ⟨value.dropWhile (!endsValue ·), (List.takeWhile_append_dropWhile).symm, ?_⟩
    intro c first
    have stop := List.head?_dropWhile_not (!endsValue ·) value
    rw [Option.mem_def.mp first] at stop
    simpa using stop
  have stops : asciiNumerals.Stops after := fun c first => value_of_endsValue (ended c first)
  have scanned : asciiNumerals.scan (asciiNumerals.text magnitude ++ after) =
      (decimalDigits magnitude, after) := Numerals.scan_append below stops
  have started : ∀ c ∈ (asciiNumerals.text magnitude ++ after).head?,
      c ≠ '-'.toUInt8 ∧ c ≠ '+'.toUInt8 := by
    have all : ∀ digit < 10, asciiNumerals.symbol digit ≠ '-'.toUInt8 ∧
        asciiNumerals.symbol digit ≠ '+'.toUInt8 := by
      decide
    obtain ⟨digit, rest, same⟩ := List.exists_cons_of_ne_nil nonempty
    rw [Numerals.text, same]
    intro c first
    cases first
    exact all digit (below digit (by simp [same]))
  rw [written] at split
  cases negative with
  | true =>
      have inner : unsigned value = asciiNumerals.text magnitude ++ after := by
        rw [split]
        rfl
      rw [valueDigits, afterDigits, inner, scanned, split]
      have minus : some '-'.toUInt8 ≠ some '+'.toUInt8 := by decide
      exact ⟨minus, rfl, rfl, ended⟩
  | false =>
      have bare : value = asciiNumerals.text magnitude ++ after := split
      rw [← bare] at started scanned
      have inner : unsigned value = value ∧ value.head? ≠ some '+'.toUInt8 ∧
          isNegative value = false := by
        cases value with
        | nil => exact ⟨rfl, by simp, rfl⟩
        | cons c rest =>
            obtain ⟨minus, plus⟩ := started c rfl
            simp [unsigned, isNegative, minus, plus]
      rw [valueDigits, afterDigits, inner.1, scanned]
      exact ⟨inner.2.1, inner.2.2, rfl, ended⟩

theorem isIntLiteral_iff (text : List UInt8) (number : Int) :
    IsIntLiteral text number ↔ ∃ (negative : Bool) (magnitude : Nat),
      text = (if negative then ['-'.toUInt8] else []) ++ asciiNumerals.text magnitude ∧
        number = if negative then -(magnitude : Int) else magnitude := by
  constructor
  · rintro ⟨magnitude, ⟨written, same⟩ | ⟨written, same⟩⟩
    · exact ⟨false, magnitude, written, same⟩
    · exact ⟨true, magnitude, written, same⟩
  · rintro ⟨_ | _, magnitude, written, same⟩
    · exact ⟨magnitude, .inl ⟨written, same⟩⟩
    · exact ⟨magnitude, .inr ⟨written, same⟩⟩

theorem not_misleading_of_literal {value : List UInt8} {out : Int}
    (written : IsIntLiteral (literal value) out) (low : -2 ^ 63 ≤ out) (high : out < 2 ^ 63) :
    ¬ Misleading value := by
  obtain ⟨negative, magnitude, written, same⟩ := (isIntLiteral_iff _ _).mp written
  obtain ⟨plus, sign, digits, ended⟩ := parts_of_literal written
  rintro ⟨-, signed | ⟨zero, more⟩ | ⟨c, after, continued⟩ | tooLarge⟩
  · exact plus signed
  · rw [digits] at zero more
    exact more ((canonical_decimalDigits magnitude).leading zero)
  · rw [ended c after] at continued
    cases continued
  · rw [sign, digits, readFrom_decimalDigits] at tooLarge
    cases negative with
    | true =>
        have magnified : 2 ^ 63 < magnitude := tooLarge
        simp only [if_true] at same
        omega
    | false =>
        have magnified : 2 ^ 63 ≤ magnitude := tooLarge
        simp only [Bool.false_eq_true, if_false] at same
        omega

theorem literal_of_not_misleading {value : List UInt8} (some : valueDigits value ≠ [])
    (fine : ¬ Misleading value) :
    let magnitude := wrapInt64 (readFrom 0 (valueDigits value) : Nat)
    let out := if isNegative value then wrapInt64 (-magnitude) else magnitude
    IsIntLiteral (literal value) out ∧ -2 ^ 63 ≤ out ∧ out < 2 ^ 63 := by
  simp only [Misleading, not_and, not_or, not_exists] at fine
  obtain ⟨plus, leading, continued, inRange⟩ := fine some
  have ended : ∀ c ∈ (afterDigits value).head?, endsValue c = true := fun c after =>
    (Bool.not_eq_false _).mp (continued c after)
  have canonical : Canonical (valueDigits value) :=
    ⟨some, Numerals.scan_below _, fun zero => not_not.mp (leading zero)⟩
  have text : asciiNumerals.text (readFrom 0 (valueDigits value)) =
      (valueDigits value).map asciiNumerals.symbol := by
    rw [Numerals.text, decimalDigits_readFrom canonical]
  have written := literal_eq plus ended
  rw [← text] at written
  generalize readFrom 0 (valueDigits value) = magnitude at *
  cases sign : isNegative value with
  | true =>
      rw [sign] at written inRange
      have small : magnitude ≤ 2 ^ 63 := not_lt.mp inRange
      have same : wrapInt64 (-wrapInt64 magnitude) = -(magnitude : Int) := by
        rw [wrapInt64_neg, wrapInt64_of_range (by omega) (by omega)]
      simp only [if_true, same]
      exact ⟨⟨magnitude, .inr ⟨written, rfl⟩⟩, by omega, by omega⟩
  | false =>
      rw [sign] at written inRange
      have small : magnitude < 2 ^ 63 := not_le.mp inRange
      have same : wrapInt64 magnitude = (magnitude : Int) := wrapInt64_of_range (by omega) (by omega)
      simp only [Bool.false_eq_true, if_false, same]
      exact ⟨⟨magnitude, .inl ⟨written, rfl⟩⟩, by omega, by omega⟩

theorem readExactly_iff_of_value {json key value : List UInt8}
    (located : jsonValueStart (cString json) key = some value) :
    ReadExactly json key ↔ ¬ Misleading value := by
  have read := parseJsonInt_eq json key
  rw [located, Option.bind_some] at read
  constructor
  · rintro exact ⟨some, misled⟩
    rw [if_neg some] at read
    obtain ⟨same, found, written, low, high⟩ := exact _ read
    cases located.symm.trans found
    exact not_misleading_of_literal written low high ⟨some, misled⟩
  · intro fine out returned
    rw [read] at returned
    split at returned
    case isTrue => cases returned
    case isFalse some =>
      cases returned
      exact ⟨value, located, literal_of_not_misleading some fine⟩

/-- The buffer is then cut where the server wrote it to be. -/
theorem flushedAck_exact {resp : List UInt8} {seq : UInt64}
    (exact : ReadExactly resp (ascii "ack_through")) (flushed : flushedAck resp = some seq) :
    ∃ value, jsonValueStart (cString resp) (ascii "ack_through") = some value ∧
      IsIntLiteral (literal value) seq.toNat := by
  simp only [flushedAck] at flushed
  split at flushed
  case isFalse => cases flushed
  case isTrue positive =>
    rw [parseAckThrough] at positive flushed
    cases read : parseJsonInt resp (ascii "ack_through") with
    | none =>
        rw [read] at positive
        exact absurd positive (by decide)
    | some ack =>
        rw [read, Option.getD_some] at positive flushed
        obtain ⟨value, located, written, -, high⟩ := exact ack read
        have fits : (UInt64.ofNat ack.toNat).toNat = ack.toNat := Nat.mod_eq_of_lt (by omega)
        have same : ((UInt64.ofNat ack.toNat).toNat : Int) = ack := by omega
        cases flushed
        exact ⟨value, located, same.symm ▸ written⟩

/-- A number is read as the server wrote it if and only if the value behind the key
does not mislead; without a value nothing is read. -/
theorem parseJsonInt_exact_iff (json key : List UInt8) :
    ReadExactly json key ↔
      ∀ value, jsonValueStart (cString json) key = some value → ¬ Misleading value := by
  cases located : jsonValueStart (cString json) key with
  | none =>
      refine iff_of_true (fun out read => ?_) (fun value found => by cases found)
      rw [parseJsonInt_eq, located] at read
      cases read
  | some value =>
      rw [readExactly_iff_of_value located]
      simp

/-- A thousand is read as one, and the buffer cut at one. -/
theorem parseJsonInt_exponent :
    flushedAck (ascii "\x7b\"ack_through\":1e3\x7d") = some 1 ∧
      ¬ ∀ json key : List UInt8, ReadExactly json key := by
  refine ⟨by decide +kernel, fun all => ?_⟩
  have read : parseJsonInt (ascii "\x7b\"ack_through\":1e3\x7d") (ascii "ack_through") = some 1 := by
    decide +kernel
  have here : jsonValueStart (cString (ascii "\x7b\"ack_through\":1e3\x7d")) (ascii "ack_through") =
      some (ascii "1e3\x7d") := by
    decide +kernel
  obtain ⟨value, located, written, low, high⟩ := all _ _ 1 read
  cases here.symm.trans located
  have misled : Misleading (ascii "1e3\x7d") :=
    ⟨by decide, .inr (.inr (.inl ⟨'e'.toUInt8, by decide, by decide⟩))⟩
  exact not_misleading_of_literal written low high misled

end Presence.Firmware
