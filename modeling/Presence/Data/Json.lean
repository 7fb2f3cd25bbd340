import Presence.Data.Decimal

namespace Presence.Data

/-! JSON texts.

A reader of RFC 8259 texts.  It keeps a number as the literal it was written with,
and the members of an object in order.  `Reads` relates a value to a text that the
reader takes for it; texts are put together from such pieces without being read
again.
-/

inductive Json where
  | null
  | bool (value : Bool)
  | number (literal : List Char)
  | string (text : List Char)
  | array (elements : List Json)
  | object (members : List (List Char × Json))

namespace Json

def isSpace (char : Char) : Bool := char == ' ' || char == '\t' || char == '\n' || char == '\r'

def skipSpace (text : List Char) : List Char := text.dropWhile isSpace

/-! ## Strings

Escapes are UTF-16 units, so a string is read into numbers first.  A surrogate
without its partner is replaced.
-/

def hexValue (digit : Char) : Option Nat :=
  if digit.isDigit then some (digit.toNat - '0'.toNat)
  else if 'a' ≤ digit ∧ digit ≤ 'f' then some (digit.toNat - 'a'.toNat + 10)
  else if 'A' ≤ digit ∧ digit ≤ 'F' then some (digit.toNat - 'A'.toNat + 10)
  else none

def escapedUnit (a b c d : Char) : Option Nat := do
  let a ← hexValue a
  let b ← hexValue b
  let c ← hexValue c
  let d ← hexValue d
  return ((a * 16 + b) * 16 + c) * 16 + d

def escapedChar : Char → Option Char
  | '"' => some '"'
  | '\\' => some '\\'
  | '/' => some '/'
  | 'b' => some '\x08'
  | 'f' => some '\x0c'
  | 'n' => some '\n'
  | 'r' => some '\r'
  | 't' => some '\t'
  | _ => none

/-- What stands before the closing quote, and what follows it. -/
def readUnits : List Char → Option (List Nat × List Char)
  | [] => none
  | '"' :: rest => some ([], rest)
  | '\\' :: 'u' :: a :: b :: c :: d :: rest =>
      match escapedUnit a b c d, readUnits rest with
      | some unit, some (units, rest) => some (unit :: units, rest)
      | _, _ => none
  | '\\' :: mark :: rest =>
      match escapedChar mark, readUnits rest with
      | some char, some (units, rest) => some (char.toNat :: units, rest)
      | _, _ => none
  | char :: rest =>
      if char.toNat < 0x20 ∨ char = '\\' then none
      else
        match readUnits rest with
        | some (units, rest) => some (char.toNat :: units, rest)
        | none => none

def isSurrogate (unit : Nat) : Bool := decide (0xD800 ≤ unit ∧ unit < 0xE000)

def scalar (unit : Nat) : Char := if isSurrogate unit then '\uFFFD' else Char.ofNat unit

def joinUnits : List Nat → List Char
  | [] => []
  | [unit] => [scalar unit]
  | high :: low :: rest =>
      if high < 0xDC00 ∧ 0xDC00 ≤ low ∧ isSurrogate high ∧ isSurrogate low then
        Char.ofNat (0x10000 + (high - 0xD800) * 0x400 + (low - 0xDC00)) :: joinUnits rest
      else scalar high :: joinUnits (low :: rest)

def readString (text : List Char) : Option (List Char × List Char) :=
  (readUnits text).map (Prod.map joinUnits id)

/-! ## Numbers -/

def readSign : List Char → List Char × List Char
  | '-' :: rest => (['-'], rest)
  | text => ([], text)

def readDigits (text : List Char) : Option (List Char × List Char) :=
  match text.span Char.isDigit with
  | ([], _) => none
  | (digits, rest) => some (digits, rest)

def readWhole : List Char → Option (List Char × List Char)
  | '0' :: rest => some (['0'], rest)
  | text => readDigits text

def readFraction : List Char → Option (List Char × List Char)
  | '.' :: rest => (readDigits rest).map (Prod.map ('.' :: ·) id)
  | text => some ([], text)

def readExponent : List Char → Option (List Char × List Char)
  | mark :: rest =>
      if mark = 'e' ∨ mark = 'E' then
        match rest with
        | '+' :: rest => (readDigits rest).map (Prod.map (mark :: '+' :: ·) id)
        | '-' :: rest => (readDigits rest).map (Prod.map (mark :: '-' :: ·) id)
        | rest => (readDigits rest).map (Prod.map (mark :: ·) id)
      else some ([], mark :: rest)
  | [] => some ([], [])

def readNumber (text : List Char) : Option (List Char × List Char) := do
  let (sign, text) := readSign text
  let (whole, text) ← readWhole text
  let (fraction, text) ← readFraction text
  let (exponent, text) ← readExponent text
  return (sign ++ whole ++ fraction ++ exponent, text)

/-! ## Values

Each level of nesting and each element costs one unit of fuel, and at least one
character, so that the length of the text is enough.
-/

mutual

def readValue : Nat → List Char → Option (Json × List Char)
  | 0, _ => none
  | fuel + 1, text =>
      match skipSpace text with
      | 'n' :: 'u' :: 'l' :: 'l' :: rest => some (.null, rest)
      | 't' :: 'r' :: 'u' :: 'e' :: rest => some (.bool true, rest)
      | 'f' :: 'a' :: 'l' :: 's' :: 'e' :: rest => some (.bool false, rest)
      | '"' :: rest => (readString rest).map (Prod.map .string id)
      | '[' :: rest =>
          match skipSpace rest with
          | ']' :: rest => some (.array [], rest)
          | rest => (readElements fuel rest).map (Prod.map .array id)
      | '{' :: rest =>
          match skipSpace rest with
          | '}' :: rest => some (.object [], rest)
          | rest => (readMembers fuel rest).map (Prod.map .object id)
      | text => (readNumber text).map (Prod.map .number id)

def readElements : Nat → List Char → Option (List Json × List Char)
  | 0, _ => none
  | fuel + 1, text => do
      let (first, rest) ← readValue fuel text
      match skipSpace rest with
      | ']' :: rest => return ([first], rest)
      | ',' :: rest =>
          let (others, rest) ← readElements fuel rest
          return (first :: others, rest)
      | _ => none

def readMembers : Nat → List Char → Option (List (List Char × Json) × List Char)
  | 0, _ => none
  | fuel + 1, text =>
      match skipSpace text with
      | '"' :: rest => do
          let (key, rest) ← readString rest
          match skipSpace rest with
          | ':' :: rest =>
              let (value, rest) ← readValue fuel rest
              match skipSpace rest with
              | '}' :: rest => return ([(key, value)], rest)
              | ',' :: rest =>
                  let (others, rest) ← readMembers fuel rest
                  return ((key, value) :: others, rest)
              | _ => none
          | _ => none
      | _ => none

end

def parse (text : List Char) : Option Json :=
  match readValue (text.length + 1) text with
  | some (value, rest) => if (skipSpace rest).isEmpty then some value else none
  | none => none

/-- The value of a name; where it is written twice the later one counts. -/
def member (name : List Char) : Json → Option Json
  | .object members => (members.reverse.find? fun entry => entry.1 == name).map Prod.snd
  | _ => none

/-! ## Texts -/

/-- What may follow a value inside a larger one, or at its end. -/
def Delimits (rest : List Char) : Prop :=
  ∀ char ∈ rest.head?, char = ',' ∨ char = ']' ∨ char = '}'

/-- The text is one of this value, wherever it stands. -/
structure Reads (value : Json) (text : List Char) : Prop where
  starts : ∃ first rest, text = first :: rest ∧ isSpace first = false ∧ first ≠ ']'
  reads : ∀ fuel rest, text.length ≤ fuel → Delimits rest →
    readValue fuel (text ++ rest) = some (value, rest)

theorem delimits_nil : Delimits [] := by
  simp [Delimits]

theorem delimits_cons {char : Char} (rest : List Char) (mark : char = ',' ∨ char = ']' ∨ char = '}') :
    Delimits (char :: rest) := by
  intro other same
  cases same
  exact mark

theorem skipSpace_cons {char : Char} (rest : List Char) (solid : isSpace char = false) :
    skipSpace (char :: rest) = char :: rest := by
  simp [skipSpace, solid]

theorem Reads.parse {value : Json} {text : List Char} (reads : Reads value text) :
    parse text = some value := by
  have read := reads.reads (text.length + 1) [] (by omega) delimits_nil
  rw [List.append_nil] at read
  simp [Json.parse, read, skipSpace]

/-! ### Strings that need no escape -/

def isPlain (char : Char) : Bool := decide (0x20 ≤ char.toNat) && char != '"' && char != '\\'

def Plain (text : List Char) : Prop := ∀ char ∈ text, isPlain char = true

instance (text : List Char) : Decidable (Plain text) :=
  decidable_of_iff (text.all isPlain = true) List.all_eq_true

theorem readUnits_plain {text : List Char} (plain : Plain text) (rest : List Char) :
    readUnits (text ++ '"' :: rest) = some (text.map Char.toNat, rest) := by
  induction text with
  | nil => rfl
  | cons char text ih =>
      have first : isPlain char = true := plain char (by simp)
      have later := ih fun other member => plain other (by simp [member])
      simp only [isPlain, Bool.and_eq_true, decide_eq_true_eq, bne_iff_ne] at first
      obtain ⟨⟨printable, notQuote⟩, notEscape⟩ := first
      have read : ¬ (char.toNat < 0x20 ∨ char = '\\') := by
        intro bad
        rcases bad with control | escape
        · omega
        · exact notEscape escape
      rw [List.cons_append, readUnits.eq_def]
      split
      next same => cases same
      next same => exact absurd (List.cons.inj same).1 notQuote
      next same => exact absurd (List.cons.inj same).1 notEscape
      next same => exact absurd (List.cons.inj same).1 notEscape
      next same =>
        cases same
        rw [if_neg read, later]
        rfl

theorem isSurrogate_toNat (char : Char) : isSurrogate char.toNat = false := by
  rw [isSurrogate, decide_eq_false_iff_not]
  change ¬ (0xD800 ≤ char.val.toNat ∧ char.val.toNat < 0xE000)
  rcases char.valid with low | high
  · omega
  · omega

theorem scalar_toNat (char : Char) : scalar char.toNat = char := by
  rw [scalar, isSurrogate_toNat]
  exact Char.ofNat_toNat char

theorem joinUnits_toNat (text : List Char) : joinUnits (text.map Char.toNat) = text := by
  induction text with
  | nil => rfl
  | cons char text ih =>
      cases text with
      | nil => simp [joinUnits, scalar_toNat]
      | cons next text =>
          rw [List.map_cons, List.map_cons, joinUnits, isSurrogate_toNat char, scalar_toNat]
          rw [List.map_cons] at ih
          simp [ih]

theorem readString_plain {text : List Char} (plain : Plain text) (rest : List Char) :
    readString (text ++ '"' :: rest) = some (text, rest) := by
  simp [readString, readUnits_plain plain, joinUnits_toNat]

theorem reads_string {text : List Char} (plain : Plain text) :
    Reads (.string text) ('"' :: (text ++ ['"'])) := by
  refine ⟨⟨'"', _, rfl, by decide, by decide⟩, fun fuel rest enough delimits => ?_⟩
  cases fuel with
  | zero => simp at enough
  | succ fuel =>
      rw [List.cons_append, List.append_assoc, readValue, skipSpace_cons _ (by decide)]
      simp [readString_plain plain]

/-! ### Numbers -/

theorem Delimits.not_isDigit {rest : List Char} (delimits : Delimits rest) :
    ∀ char ∈ rest.head?, char.isDigit = false := by
  intro char first
  rcases delimits char first with rfl | rfl | rfl
  all_goals decide

theorem readDigits_append {digits rest : List Char} (some : digits ≠ [])
    (all : ∀ char ∈ digits, char.isDigit = true) (delimits : Delimits rest) :
    readDigits (digits ++ rest) = .some (digits, rest) := by
  have stops : rest.takeWhile Char.isDigit = [] ∧ rest.dropWhile Char.isDigit = rest := by
    cases rest with
    | nil => exact ⟨rfl, rfl⟩
    | cons char rest =>
        have other := delimits.not_isDigit char rfl
        simp [other]
  have front : (digits ++ rest).takeWhile Char.isDigit = digits := by
    rw [List.takeWhile_append_of_pos all, stops.1, List.append_nil]
  have back : (digits ++ rest).dropWhile Char.isDigit = rest := by
    rw [List.dropWhile_append_of_pos all, stops.2]
  cases digits with
  | nil => exact absurd rfl some
  | cons first others => simp only [readDigits, List.span_eq_takeWhile_dropWhile, front, back]

/-- The digits of JSON. -/
def numerals : Numerals Char where
  symbol digit := Char.ofNat (48 + digit)
  value char := if char.isDigit then some (char.toNat - 48) else none
  value_symbol := by decide
  symbol_value := by
    intro mark digit read
    split at read
    next inside =>
      have same : mark.toNat - 48 = digit := Option.some.inj read
      have range : 48 ≤ mark.toNat ∧ mark.toNat ≤ 57 := Char.isDigit_iff_toNat.mp inside
      refine ⟨by omega, ?_⟩
      rw [← same, Nat.add_sub_cancel' range.1]
      exact Char.ofNat_toNat mark
    next => cases read

theorem isDigit_text (number : Nat) : ∀ char ∈ numerals.text number, char.isDigit = true := by
  intro char member
  obtain ⟨digit, inside, rfl⟩ := List.mem_map.mp member
  have below := (canonical_decimalDigits number).below digit inside
  have all : ∀ digit < 10, (Char.ofNat (48 + digit)).isDigit = true := by decide
  exact all digit below

theorem readWhole_text (number : Nat) {rest : List Char} (delimits : Delimits rest) :
    readWhole (numerals.text number ++ rest) = some (numerals.text number, rest) := by
  obtain ⟨nonempty, below, leading⟩ := canonical_decimalDigits number
  have digits : readDigits (numerals.text number ++ rest) = some (numerals.text number, rest) :=
    readDigits_append (by simpa [Numerals.text] using nonempty) (isDigit_text number) delimits
  simp only [readWhole]
  split
  next others zero =>
    -- a number that starts with zero is zero
    have lone : decimalDigits number = [0] := by
      cases split : decimalDigits number with
      | nil => exact absurd split nonempty
      | cons first later =>
          rw [Numerals.text, split, List.map_cons, List.cons_append] at zero
          have first0 : first = 0 := by
            have small : first < 10 := below first (by simp [split])
            have only : ∀ digit < 10, Char.ofNat (48 + digit) = '0' → digit = 0 := by decide
            exact only first small (List.cons.inj zero).1
          rw [← split]
          exact leading (by simp [split, first0])
    rw [Numerals.text, lone] at zero ⊢
    cases zero
    rfl
  next => exact digits

theorem Delimits.readFraction {rest : List Char} (delimits : Delimits rest) :
    readFraction rest = some ([], rest) := by
  simp only [Json.readFraction]
  split
  next point =>
    rcases delimits '.' rfl with same | same | same
    all_goals cases same
  next => rfl

theorem Delimits.readExponent {rest : List Char} (delimits : Delimits rest) :
    readExponent rest = some ([], rest) := by
  cases rest with
  | nil => rfl
  | cons mark rest =>
      have other : ¬ (mark = 'e' ∨ mark = 'E') := by
        rcases delimits mark rfl with rfl | rfl | rfl
        all_goals decide
      simp only [Json.readExponent]
      exact if_neg other

theorem reads_number (number : Nat) :
    Reads (.number (numerals.text number)) (numerals.text number) := by
  obtain ⟨nonempty, -, -⟩ := canonical_decimalDigits number
  cases split : numerals.text number with
  | nil =>
      rw [Numerals.text, List.map_eq_nil_iff] at split
      exact absurd split nonempty
  | cons first others =>
      have digit : first.isDigit = true := isDigit_text number first (by simp [split])
      have solid : isSpace first = false := by
        cases space : isSpace first with
        | false => rfl
        | true =>
            simp only [isSpace, Bool.or_eq_true, beq_iff_eq] at space
            rcases space with ((rfl | rfl) | rfl) | rfl
            all_goals cases digit
      refine ⟨⟨first, others, rfl, solid, fun same => by subst same; cases digit⟩,
        fun fuel rest enough delimits => ?_⟩
      have sign : readSign (first :: others ++ rest) = ([], first :: others ++ rest) := by
        rw [List.cons_append, readSign]
        intro later same
        rw [(List.cons.inj same).1] at digit
        cases digit
      have read : readNumber (first :: others ++ rest) = some (first :: others, rest) := by
        have whole := readWhole_text number delimits
        rw [split] at whole
        rw [readNumber, sign]
        simp only [whole, delimits.readFraction, delimits.readExponent, bind, pure, Option.bind_some,
          List.nil_append, List.append_nil]
      cases fuel with
      | zero => simp at enough
      | succ fuel =>
          rw [readValue]
          rw [List.cons_append] at read ⊢
          rw [skipSpace_cons _ solid]
          split
          iterate 6
            next same =>
              rw [(List.cons.inj same).1] at digit
              cases digit
          next => rw [read]; rfl

/-! ### Arrays and objects

A list is written as its first part and the others with a comma before each.
-/

def commaBefore (texts : List (List Char)) : List Char := texts.flatMap (',' :: ·)

def joined : List (List Char) → List Char
  | [] => []
  | first :: others => first ++ commaBefore others

theorem readElements_last {fuel : Nat} {text rest : List Char} {value : Json}
    (read : readValue fuel text = some (value, ']' :: rest)) :
    readElements (fuel + 1) text = some ([value], rest) := by
  have solid := skipSpace_cons rest (show isSpace ']' = false by decide)
  simp only [readElements, read, bind, Option.bind_some, solid]
  rfl

theorem readElements_more {fuel : Nat} {text rest final : List Char} {value : Json}
    {others : List Json} (read : readValue fuel text = some (value, ',' :: rest))
    (later : readElements fuel rest = some (others, final)) :
    readElements (fuel + 1) text = some (value :: others, final) := by
  have solid := skipSpace_cons rest (show isSpace ',' = false by decide)
  simp only [readElements, read, bind, Option.bind_some, solid, later]
  rfl

theorem readElements_joined {first : Json} {firstText : List Char} (reads : Reads first firstText)
    {others : List (Json × List Char)} (all : ∀ entry ∈ others, Reads entry.1 entry.2)
    {fuel : Nat} (rest : List Char)
    (enough : (joined (firstText :: others.map Prod.snd)).length < fuel) :
    readElements fuel (joined (firstText :: others.map Prod.snd) ++ ']' :: rest) =
      some (first :: others.map Prod.fst, rest) := by
  induction others generalizing first firstText fuel with
  | nil =>
      cases fuel with
      | zero => simp at enough
      | succ fuel =>
          simp only [List.map_nil, joined, commaBefore, List.flatMap_nil, List.append_nil] at enough ⊢
          exact readElements_last (reads.reads fuel (']' :: rest) (by omega)
            (delimits_cons _ (.inr (.inl rfl))))
  | cons entry others ih =>
      cases fuel with
      | zero => simp at enough
      | succ fuel =>
          obtain ⟨head, tail⟩ := List.forall_mem_cons.mp all
          have cut : joined (firstText :: (entry :: others).map Prod.snd) =
              firstText ++ ',' :: joined (entry.2 :: others.map Prod.snd) := by
            simp [joined, commaBefore]
          rw [cut] at enough ⊢
          simp only [List.length_append, List.length_cons] at enough
          have read := reads.reads fuel (',' :: (joined (entry.2 :: others.map Prod.snd) ++ ']' :: rest))
            (by omega) (delimits_cons _ (.inl rfl))
          rw [List.append_assoc, List.cons_append]
          exact readElements_more read (ih head tail (by omega))

theorem reads_array {entries : List (Json × List Char)}
    (all : ∀ entry ∈ entries, Reads entry.1 entry.2) :
    Reads (.array (entries.map Prod.fst)) ('[' :: (joined (entries.map Prod.snd) ++ [']'])) := by
  refine ⟨⟨'[', _, rfl, by decide, by decide⟩, fun fuel rest enough delimits => ?_⟩
  cases fuel with
  | zero => simp at enough
  | succ fuel =>
      have start := skipSpace_cons (joined (entries.map Prod.snd) ++ ']' :: rest)
        (show isSpace '[' = false by decide)
      rw [List.cons_append, List.append_assoc, readValue]
      simp only [List.singleton_append, start]
      cases entries with
      | nil =>
          have close := skipSpace_cons rest (show isSpace ']' = false by decide)
          simp [joined, close]
      | cons entry others =>
          obtain ⟨head, tail⟩ := List.forall_mem_cons.mp all
          obtain ⟨char, later, text, solid, notClose⟩ := head.starts
          have enough : (joined (entry.2 :: others.map Prod.snd)).length < fuel := by
            simp only [List.map_cons, List.length_cons, List.length_append] at enough
            omega
          have read := readElements_joined head tail rest enough
          have front : joined (entry.2 :: others.map Prod.snd) ++ ']' :: rest =
              char :: (later ++ commaBefore (others.map Prod.snd) ++ ']' :: rest) := by
            simp [joined, text]
          have solid : skipSpace (joined (entry.2 :: others.map Prod.snd) ++ ']' :: rest) =
              joined (entry.2 :: others.map Prod.snd) ++ ']' :: rest := by
            rw [front, skipSpace_cons _ solid]
          rw [List.map_cons, List.map_cons, solid]
          split
          next close =>
            rw [front] at close
            exact absurd (List.cons.inj close).1 notClose
          next => rw [read]; rfl

/-- A member of an object, with the text of its value. -/
structure Member where
  key : List Char
  value : Json
  text : List Char

def Member.written (entry : Member) : List Char := '"' :: (entry.key ++ '"' :: ':' :: entry.text)

structure Member.Reads (entry : Member) : Prop where
  key : Plain entry.key
  value : Json.Reads entry.value entry.text

theorem readMembers_value {entry : Member} (reads : entry.Reads) {fuel : Nat} {rest : List Char}
    (enough : entry.text.length ≤ fuel) (delimits : Delimits rest) :
    readMembers (fuel + 1) (entry.written ++ rest) =
      match skipSpace rest with
      | '}' :: rest => some ([(entry.key, entry.value)], rest)
      | ',' :: rest =>
          (readMembers fuel rest).map (Prod.map ((entry.key, entry.value) :: ·) id)
      | _ => none := by
  have quote := skipSpace_cons (entry.key ++ '"' :: ':' :: (entry.text ++ rest))
    (show isSpace '"' = false by decide)
  have colon := skipSpace_cons (entry.text ++ rest) (show isSpace ':' = false by decide)
  have key := readString_plain reads.key (':' :: (entry.text ++ rest))
  have value := reads.value.reads fuel rest enough delimits
  have text : entry.written ++ rest = '"' :: (entry.key ++ '"' :: ':' :: (entry.text ++ rest)) := by
    simp [Member.written]
  rw [text, readMembers]
  simp only [quote, key, colon, value, bind, Option.bind_some]
  split
  next => rfl
  next => cases readMembers fuel _ <;> rfl
  next => rfl

theorem readMembers_joined {first : Member} (reads : first.Reads) {others : List Member}
    (all : ∀ entry ∈ others, entry.Reads) {fuel : Nat} (rest : List Char)
    (enough : (joined ((first :: others).map Member.written)).length < fuel) :
    readMembers fuel (joined ((first :: others).map Member.written) ++ '}' :: rest) =
      some ((first :: others).map fun entry => (entry.key, entry.value), rest) := by
  induction others generalizing first fuel with
  | nil =>
      cases fuel with
      | zero => simp at enough
      | succ fuel =>
          simp only [List.map_nil, List.map_cons, joined, commaBefore, List.flatMap_nil,
            List.append_nil] at enough ⊢
          have short : first.text.length ≤ fuel := by
            simp only [Member.written, List.length_cons, List.length_append] at enough
            omega
          rw [readMembers_value reads short (delimits_cons _ (.inr (.inr rfl))),
            skipSpace_cons _ (by decide)]
          rfl
  | cons entry others ih =>
      cases fuel with
      | zero => simp at enough
      | succ fuel =>
          obtain ⟨head, tail⟩ := List.forall_mem_cons.mp all
          have cut : joined ((first :: entry :: others).map Member.written) =
              first.written ++ ',' :: joined ((entry :: others).map Member.written) := by
            simp [joined, commaBefore]
          rw [cut] at enough ⊢
          simp only [List.length_append, List.length_cons] at enough
          have short : first.text.length ≤ fuel := by
            simp only [Member.written, List.length_cons, List.length_append] at enough
            omega
          have smaller : (joined ((entry :: others).map Member.written)).length < fuel := by omega
          have later := ih head tail smaller
          rw [List.append_assoc, List.cons_append,
            readMembers_value reads short (delimits_cons _ (.inl rfl)), skipSpace_cons _ (by decide)]
          simp only [later]
          rfl

theorem reads_object {first : Member} {others : List Member}
    (all : ∀ entry ∈ first :: others, entry.Reads) :
    Reads (.object ((first :: others).map fun entry => (entry.key, entry.value)))
      ('{' :: (joined ((first :: others).map Member.written) ++ ['}'])) := by
  refine ⟨⟨'{', _, rfl, by decide, by decide⟩, fun fuel rest enough delimits => ?_⟩
  cases fuel with
  | zero => simp at enough
  | succ fuel =>
      obtain ⟨head, tail⟩ := List.forall_mem_cons.mp all
      have start := skipSpace_cons (joined ((first :: others).map Member.written) ++ '}' :: rest)
        (show isSpace '{' = false by decide)
      have enough : (joined ((first :: others).map Member.written)).length < fuel := by
        simp only [List.length_cons, List.length_append] at enough
        omega
      have read := readMembers_joined head tail rest enough
      have quote : ∃ later, joined ((first :: others).map Member.written) ++ '}' :: rest =
          '"' :: later := ⟨_, rfl⟩
      obtain ⟨later, quote⟩ := quote
      rw [List.cons_append, List.append_assoc, readValue]
      simp only [List.singleton_append, start]
      rw [quote, skipSpace_cons _ (by decide)]
      rw [quote] at read
      simp [read]

end Json

end Presence.Data
