import Presence.Data.JsonText
import Presence.Firmware.Provision

namespace Presence.Firmware

open Presence.Data.JsonText

/-! # The substring scanner on JSON

`jsonValueStart` looks for the key between quotes with a colon behind it.  A quote is
the beginning of a string, its end, or escaped inside it; only the first can be
followed by the key and a quote, unless a string ends like the key, and then no colon
follows that is not the colon of a name.
-/

/-- Letters, digits and underscores. -/
def isWord (c : UInt8) : Bool :=
  isDigit c || decide ('a'.toUInt8 ≤ c ∧ c ≤ 'z'.toUInt8 ∨ 'A'.toUInt8 ≤ c ∧ c ≤ 'Z'.toUInt8) ||
    c == '_'.toUInt8

def IsKey (key : List UInt8) : Prop := ∀ c ∈ key, isWord c = true

instance (key : List UInt8) : Decidable (IsKey key) :=
  inferInstanceAs (Decidable (∀ c ∈ key, isWord c = true))

def isEscapedQuote : Piece → Bool
  | .escape mark _ => mark == '"'.toUInt8
  | _ => false

def NoEscapedQuote (pieces : List Piece) : Prop := ∀ piece ∈ pieces, isEscapedQuote piece = false

instance (pieces : List Piece) : Decidable (NoEscapedQuote pieces) :=
  inferInstanceAs (Decidable (∀ piece ∈ pieces, isEscapedQuote piece = false))

/-- What follows a value: space, and then the end of the text or of what the value is in. -/
def Closed (after : List UInt8) : Prop :=
  ∃ blank rest, after = blank ++ rest ∧ (∀ c ∈ blank, isSpace c = true) ∧
    ∀ c ∈ rest.head?, c = ','.toUInt8 ∨ c = ']'.toUInt8 ∨ c = '\x7d'.toUInt8

/-- What the scanner looks for. -/
def needle (key : List UInt8) : List UInt8 := '"'.toUInt8 :: key ++ ['"'.toUInt8]

section

variable {key : List UInt8}

theorem length_needle : (needle key).length = key.length + 2 := by
  simp [needle]

theorem find_skip (front rest : List UInt8) :
    findJsonValue (needle key) front.length (front ++ rest) = findJsonValue (needle key) 0 rest := by
  induction front with
  | nil => rfl
  | cons c front ih => exact ih

theorem find_other {c : UInt8} (rest : List UInt8) (other : c ≠ '"'.toUInt8) :
    findJsonValue (needle key) 0 (c :: rest) = findJsonValue (needle key) 0 rest := by
  have differs : ¬ (needle key).isPrefixOf (c :: rest) = true := by
    rw [List.isPrefixOf_iff_prefix, needle, List.cons_append, List.cons_prefix_cons]
    exact fun same => other same.1.symm
  rw [findJsonValue, if_neg differs]

theorem find_gap {gap : List UInt8} (rest : List UInt8) (quoteless : ∀ c ∈ gap, c ≠ '"'.toUInt8) :
    findJsonValue (needle key) 0 (gap ++ rest) = findJsonValue (needle key) 0 rest := by
  induction gap with
  | nil => rfl
  | cons c gap ih =>
      rw [List.cons_append, find_other _ (quoteless c (by simp)),
        ih fun other member => quoteless other (by simp [member])]

theorem needle_isPrefixOf (text : List UInt8) :
    (needle key).isPrefixOf ('"'.toUInt8 :: text) = true ↔
      ∃ rest, key ++ '"'.toUInt8 :: rest = text := by
  rw [List.isPrefixOf_iff_prefix, needle, List.cons_append, List.cons_prefix_cons, eq_self, true_and]
  simp [List.IsPrefix]

/-- At a quote with the key behind it. -/
theorem find_key {after : List UInt8} :
    findJsonValue (needle key) 0 ('"'.toUInt8 :: (key ++ '"'.toUInt8 :: after)) =
      match after.dropWhile isJsonSpace with
      | colon :: rest =>
          if colon = ':'.toUInt8 then
            let value := rest.dropWhile isJsonSpace
            if value.isEmpty then none else some value
          else findJsonValue (needle key) 0 after
      | [] => findJsonValue (needle key) 0 after := by
  have found : (needle key).isPrefixOf ('"'.toUInt8 :: (key ++ '"'.toUInt8 :: after)) = true :=
    (needle_isPrefixOf _).mpr ⟨after, rfl⟩
  have behind : ('"'.toUInt8 :: (key ++ '"'.toUInt8 :: after)).drop (needle key).length = after := by
    rw [length_needle]
    simp
  have passed : findJsonValue (needle key) ((needle key).length - 1) (key ++ '"'.toUInt8 :: after) =
      findJsonValue (needle key) 0 after := by
    have skipped := @find_skip key (key ++ ['"'.toUInt8]) after
    rw [List.append_assoc, List.length_append] at skipped
    rw [length_needle]
    exact skipped
  rewrite [findJsonValue, if_pos found, behind, passed]
  rfl

theorem find_quote {text : List UInt8} (missing : ¬ ∃ rest, key ++ '"'.toUInt8 :: rest = text) :
    findJsonValue (needle key) 0 ('"'.toUInt8 :: text) = findJsonValue (needle key) 0 text := by
  have absent : ¬ (needle key).isPrefixOf ('"'.toUInt8 :: text) = true := by
    rwa [needle_isPrefixOf]
  rw [findJsonValue, if_neg absent]

theorem isWord_not_quote {c : UInt8} (word : isWord c = true) :
    c ≠ '"'.toUInt8 ∧ c ≠ '\\'.toUInt8 := by
  constructor
  · rintro rfl
    exact absurd word (by decide)
  · rintro rfl
    exact absurd word (by decide)

/-- Only a string spelled like the key has the key up to its end. -/
theorem spelling_of_key {pieces : List Piece} {rest after : List UInt8} (word : IsKey key)
    (same : key ++ '"'.toUInt8 :: rest = spelling pieces ++ '"'.toUInt8 :: after) :
    spelling pieces = key := by
  induction pieces generalizing key with
  | nil =>
      cases key with
      | nil => rfl
      | cons c key => exact absurd (List.cons.inj same).1 (isWord_not_quote (word c (by simp))).1
  | cons piece pieces ih =>
      cases piece with
      | plain byte valid =>
          cases key with
          | nil =>
              cases (List.cons.inj same).1
              exact absurd valid (by decide)
          | cons c key =>
              obtain ⟨first, later⟩ := List.cons.inj same
              have inner := ih (fun other member => word other (by simp [member])) later
              rw [spelling, List.flatMap_cons, ← spelling, inner, first]
              rfl
      | escape mark valid =>
          cases key with
          | nil => exact absurd (List.cons.inj same).1 (by decide)
          | cons c key => exact absurd (List.cons.inj same).1 (isWord_not_quote (word c (by simp))).2
      | unicode digits four valid =>
          cases key with
          | nil => exact absurd (List.cons.inj same).1 (by decide)
          | cons c key => exact absurd (List.cons.inj same).1 (isWord_not_quote (word c (by simp))).2

/-- What follows a string does not go on like the key. -/
def Separated (after : List UInt8) : Prop :=
  ∀ c ∈ after.head?, isWord c = false ∧ c ≠ '"'.toUInt8

def NoColon (after : List UInt8) : Prop := (after.dropWhile isJsonSpace).head? ≠ some ':'.toUInt8

/-- A string spelled like the key is passed when no colon follows. -/
theorem find_key_noColon {after : List UInt8} (noColon : NoColon after) :
    findJsonValue (needle key) 0 ('"'.toUInt8 :: (key ++ '"'.toUInt8 :: after)) =
      findJsonValue (needle key) 0 after := by
  rw [find_key]
  split
  next colon rest same =>
    rw [if_neg]
    rintro rfl
    exact noColon (by rw [same]; rfl)
  next => rfl

/-- The end of a string is no beginning of the key. -/
theorem find_end {after : List UInt8} (word : IsKey key) (separated : Separated after) :
    findJsonValue (needle key) 0 ('"'.toUInt8 :: after) = findJsonValue (needle key) 0 after := by
  apply find_quote
  rintro ⟨rest, same⟩
  cases key with
  | nil => exact (separated _ (by rw [← same]; rfl)).2 rfl
  | cons c key =>
      have first := (separated c (by rw [← same]; rfl)).1
      rw [word c (by simp)] at first
      cases first

/-- From inside a string to its end. -/
theorem find_inside {pieces : List Piece} {after : List UInt8} (word : IsKey key)
    (separated : Separated after) (harmless : NoEscapedQuote pieces ∨ NoColon after) :
    findJsonValue (needle key) 0 (spelling pieces ++ '"'.toUInt8 :: after) =
      findJsonValue (needle key) 0 after := by
  induction pieces with
  | nil => exact find_end word separated
  | cons piece pieces ih =>
      have later := ih (harmless.imp_left fun all other member => all other (by simp [member]))
      rw [spelling, List.flatMap_cons, ← spelling, List.append_assoc]
      cases piece with
      | plain byte valid =>
          have notQuote : byte ≠ '"'.toUInt8 := by
            rintro rfl
            exact absurd valid (by decide)
          exact (find_other _ notQuote).trans later
      | unicode digits four valid =>
          refine (find_gap _ fun c member => ?_).trans later
          simp only [Piece.text, List.mem_cons] at member
          rcases member with rfl | rfl | digit
          · decide
          · decide
          · rintro rfl
            exact absurd (valid _ digit) (by decide)
      | escape mark valid =>
          refine (find_other _ (by decide)).trans ?_
          by_cases quote : mark = '"'.toUInt8
          · -- the string may end like the key, and then it is no name
            subst quote
            by_cases ending : spelling pieces = key
            · rcases harmless with plainly | noColon
              · have unescaped := plainly (.escape '"'.toUInt8 valid) (by simp)
                simp [isEscapedQuote] at unescaped
              · rw [ending]
                exact find_key_noColon noColon
            · refine (find_quote ?_).trans later
              rintro ⟨rest, same⟩
              exact ending (spelling_of_key word same)
          · exact (find_other _ quote).trans later

/-- A string that is no name. -/
theorem find_string {pieces : List Piece} {after : List UInt8} (word : IsKey key)
    (separated : Separated after) (noColon : NoColon after) :
    findJsonValue (needle key) 0 (quoted pieces ++ after) = findJsonValue (needle key) 0 after := by
  rw [quoted, List.cons_append, List.append_assoc, List.singleton_append]
  by_cases same : spelling pieces = key
  · rw [same]
    exact find_key_noColon noColon
  · refine (find_quote ?_).trans (find_inside word separated (.inr noColon))
    rintro ⟨rest, matched⟩
    exact same (spelling_of_key word matched)

theorem isJsonSpace_eq : isJsonSpace = isSpace := rfl

theorem dropWhile_blank (blank : Blank) (rest : List UInt8) :
    (blank.text ++ rest).dropWhile isJsonSpace = rest.dropWhile isJsonSpace :=
  List.dropWhile_append_of_pos blank.spaces

theorem isWord_of_isSpace {c : UInt8} (space : isSpace c = true) : isWord c = false ∧ c ≠ '"'.toUInt8 := by
  revert space
  refine @Presence.Data.forall_byte (fun c => isSpace c = true → isWord c = false ∧ c ≠ '"'.toUInt8) ?_ c
  decide +kernel

/-- Space, and then something that is no word. -/
theorem separated_blank (blank : List UInt8) (spaces : ∀ c ∈ blank, isSpace c = true)
    {rest : List UInt8} (separated : Separated rest) : Separated (blank ++ rest) := by
  cases blank with
  | nil => exact separated
  | cons c blank =>
      intro other first
      cases first
      exact isWord_of_isSpace (spaces c (by simp))

theorem find_blank (blank : Blank) (rest : List UInt8) :
    findJsonValue (needle key) 0 (blank.text ++ rest) = findJsonValue (needle key) 0 rest :=
  find_gap rest fun c member => (isWord_of_isSpace (blank.spaces c member)).2

/-- A name, with the colon and the value behind it. -/
theorem find_label {label : Label} {c : UInt8} {rest : List UInt8} (word : IsKey key)
    (unescaped : NoEscapedQuote label.name) (solid : isSpace c = false) :
    findJsonValue (needle key) 0 (label.render ++ c :: rest) =
      if spelling label.name = key then some (c :: rest)
      else findJsonValue (needle key) 0 (c :: rest) := by
  have value : (label.ahead.text ++ c :: rest).dropWhile isJsonSpace = c :: rest := by
    rw [dropWhile_blank, List.dropWhile_cons_of_neg]
    rw [isJsonSpace_eq, solid]
    decide
  have colon : (label.between.text ++ ':'.toUInt8 :: (label.ahead.text ++ c :: rest)).dropWhile
      isJsonSpace = ':'.toUInt8 :: (label.ahead.text ++ c :: rest) := by
    rw [dropWhile_blank]
    rfl
  have shape : label.render ++ c :: rest = label.before.text ++ ('"'.toUInt8 ::
      (spelling label.name ++ '"'.toUInt8 ::
        (label.between.text ++ ':'.toUInt8 :: (label.ahead.text ++ c :: rest)))) := by
    simp [Label.render, quoted]
  rw [shape, find_blank]
  split
  case isTrue same =>
    rw [same, find_key, colon]
    simp only [if_true, value]
    rfl
  case isFalse different =>
    have noKey : ¬ ∃ other, key ++ '"'.toUInt8 :: other = spelling label.name ++ '"'.toUInt8 ::
        (label.between.text ++ ':'.toUInt8 :: (label.ahead.text ++ c :: rest)) := by
      rintro ⟨other, matched⟩
      exact different (spelling_of_key word matched)
    have separated : Separated (':'.toUInt8 :: (label.ahead.text ++ c :: rest)) := by
      intro other first
      cases first
      decide
    rw [find_quote noKey, find_inside word
      (separated_blank _ label.between.spaces separated) (.inl unescaped), find_blank,
      find_other _ (by decide), find_blank]

theorem Closed.separated {after : List UInt8} (closed : Closed after) : Separated after := by
  obtain ⟨blank, rest, rfl, spaces, ends⟩ := closed
  apply separated_blank blank spaces
  intro c first
  rcases ends c first with rfl | rfl | rfl <;> decide

theorem Closed.noColon {after : List UInt8} (closed : Closed after) : NoColon after := by
  obtain ⟨blank, rest, rfl, spaces, ends⟩ := closed
  rw [NoColon, isJsonSpace_eq, List.dropWhile_append_of_pos spaces]
  cases rest with
  | nil => simp
  | cons c rest =>
      have solid : ¬ isSpace c = true := by
        rcases ends c rfl with rfl | rfl | rfl <;> decide
      rw [List.dropWhile_cons_of_neg solid]
      rintro same
      cases same
      exact absurd (ends _ rfl) (by decide)

theorem closed_blank (blank : Blank) {c : UInt8} (rest : List UInt8)
    (ends : c = ','.toUInt8 ∨ c = ']'.toUInt8 ∨ c = '\x7d'.toUInt8) :
    Closed (blank.text ++ c :: rest) := by
  refine ⟨blank.text, c :: rest, rfl, blank.spaces, ?_⟩
  intro other first
  cases first
  exact ends

theorem Closed.blank {after : List UInt8} (closed : Closed after) (blank : Blank) :
    Closed (blank.text ++ after) := by
  obtain ⟨spaces, rest, rfl, all, ends⟩ := closed
  exact ⟨blank.text ++ spaces, rest, (List.append_assoc ..).symm,
    List.forall_mem_append.mpr ⟨blank.spaces, all⟩, ends⟩

theorem closed_mark {c : UInt8} (rest : List UInt8)
    (ends : c = ','.toUInt8 ∨ c = ']'.toUInt8 ∨ c = '\x7d'.toUInt8) : Closed (c :: rest) :=
  closed_blank ⟨[], by simp⟩ rest ends

/-- A label and its value are found before anything in or behind the value. -/
theorem find_member {label : Label} {value : Text .value} {rest : List UInt8}
    {found : Option (List UInt8)} (word : IsKey key) (unescaped : NoEscapedQuote label.name)
    (inner : findJsonValue (needle key) 0 (render value ++ rest) = found) :
    findJsonValue (needle key) 0 (label.render ++ (render value ++ rest)) =
      ((if spelling label.name = key then [(value, render value ++ rest)] else []).head?.map
        Prod.snd).or found := by
  obtain ⟨c, later, started, solid⟩ := render_head value
  rw [started, List.cons_append] at inner ⊢
  rw [find_label word unescaped solid, inner]
  split
  case isTrue => rfl
  case isFalse => rfl

/-- The first member of that name within a text, or else what is found behind it. -/
theorem find_render {symbol : Symbol} {text : Text symbol} {after : List UInt8} (word : IsKey key)
    (unescaped : ∀ name ∈ names text, NoEscapedQuote name) (closed : Closed after) :
    findJsonValue (needle key) 0 (render text ++ after) =
      ((entries key text after).head?.map Prod.snd).or (findJsonValue (needle key) 0 after) := by
  induction text generalizing after with
  | literal text valid =>
      refine find_gap after fun c member => ?_
      have solid := (isLiteral_solid valid).2 c member
      simp only [isSolid, Bool.and_eq_true, bne_iff_ne] at solid
      exact solid.1.2
  | string pieces => exact find_string word closed.separated closed.noColon
  | emptyArray blank =>
      rw [render, List.cons_append, List.append_assoc, find_other _ (by decide), find_blank]
      exact find_other after (by decide)
  | array elements ih =>
      rw [render, List.cons_append, List.append_assoc, find_other _ (by decide),
        List.singleton_append, ih unescaped (closed_mark after (.inr (.inl rfl))),
        find_other after (by decide)]
      rfl
  | emptyObject blank =>
      rw [render, List.cons_append, List.append_assoc, find_other _ (by decide), find_blank]
      exact find_other after (by decide)
  | object members ih =>
      rw [render, List.cons_append, List.append_assoc, find_other _ (by decide),
        List.singleton_append, ih unescaped (closed_mark after (.inr (.inr rfl))),
        find_other after (by decide)]
      rfl
  | lastElement before value blank ih =>
      rw [render, List.append_assoc, List.append_assoc, find_blank,
        ih unescaped (closed.blank blank), find_blank]
      rfl
  | element before value blank rest first later =>
      rw [names, List.forall_mem_append] at unescaped
      have inner := first unescaped.1 (closed_blank blank (render rest ++ after) (.inl rfl))
      rw [find_blank, find_other _ (by decide), later unescaped.2 closed, ← Option.or_assoc,
        ← Option.map_or, ← List.head?_append] at inner
      rw [render, List.append_assoc, List.append_assoc, List.append_assoc, find_blank]
      exact inner
  | lastMember label value blank ih =>
      rw [names, List.forall_mem_cons] at unescaped
      have inner := ih unescaped.2 (closed.blank blank)
      rw [find_blank] at inner
      have whole := find_member word unescaped.1 inner
      rw [← Option.or_assoc, ← Option.map_or, ← List.head?_append] at whole
      rw [render, List.append_assoc, List.append_assoc]
      exact whole
  | member label value blank rest first later =>
      rw [names, List.forall_mem_cons, List.forall_mem_append] at unescaped
      have inner := first unescaped.2.1 (closed_blank blank (render rest ++ after) (.inl rfl))
      rw [find_blank, find_other _ (by decide), later unescaped.2.2 closed, ← Option.or_assoc,
        ← Option.map_or, ← List.head?_append] at inner
      have whole := find_member word unescaped.1 inner
      rw [← Option.or_assoc, ← Option.map_or, ← List.head?_append] at whole
      simpa only [render, entries, List.append_assoc, List.cons_append] using whole

end

/-! ## Strings -/

/-- The byte of a piece the firmware decodes. -/
def plainByte : Piece → Option UInt8
  | .plain byte _ => some byte
  | .escape mark _ =>
      if mark = '"'.toUInt8 ∨ mark = '\\'.toUInt8 ∨ mark = '/'.toUInt8 then some mark else none
  | .unicode .. => none

/-- The string a value is, when it has no other escapes. -/
def plainString : Text .value → Option (List UInt8)
  | .string pieces => pieces.mapM plainByte
  | _ => none

/-- One byte more, and the rest of the string. -/
theorem push_eq {maxLen : Nat} {value : List UInt8} (byte : UInt8) (rest : Option (List UInt8))
    {read : Option (List UInt8)}
    (later : (value ++ [byte]).length ≤ maxLen →
      read = (rest.map (value ++ [byte] ++ ·)).filter (·.length ≤ maxLen)) :
    (if (value ++ [byte]).length > maxLen then none else read) =
      (((rest.map (byte :: ·)).map (value ++ ·)).filter (·.length ≤ maxLen)) := by
  by_cases fits : (value ++ [byte]).length ≤ maxLen
  · rw [if_neg (Nat.not_lt.mpr fits), later fits]
    cases rest <;> simp
  · rw [if_pos (Nat.not_le.mp fits)]
    rw [List.length_append, List.length_singleton] at fits
    cases rest with
    | none => rfl
    | some rest =>
        symm
        simp only [Option.map_some, Option.filter_eq_none_iff, Option.some.injEq,
          forall_eq', decide_eq_true_eq, List.length_append, List.length_cons]
        omega

theorem readJsonString_cons (maxLen : Nat) (value : List UInt8) (c : UInt8) (rest : List UInt8) :
    readJsonString maxLen value (c :: rest) =
      if c = '"'.toUInt8 then some value
      else if c < 0x20 then none
      else if c = '\\'.toUInt8 then
        match rest with
        | [] => none
        | e :: rest =>
            if e = '"'.toUInt8 ∨ e = '\\'.toUInt8 ∨ e = '/'.toUInt8 then
              if (value ++ [e]).length > maxLen then none
              else readJsonString maxLen (value ++ [e]) rest
            else none
      else if (value ++ [c]).length > maxLen then none
      else readJsonString maxLen (value ++ [c]) rest := by
  rewrite [readJsonString.eq_def]
  rfl

theorem readJsonString_eq {maxLen : Nat} {value : List UInt8} (pieces : List Piece)
    (rest : List UInt8) (fits : value.length ≤ maxLen) :
    readJsonString maxLen value (spelling pieces ++ '"'.toUInt8 :: rest) =
      ((pieces.mapM plainByte).map (value ++ ·)).filter (·.length ≤ maxLen) := by
  induction pieces generalizing value with
  | nil =>
      have whole : (some (value ++ [])).filter (·.length ≤ maxLen) = some value := by
        rw [List.append_nil, Option.filter_some_pos]
        exact decide_eq_true fits
      rw [spelling, List.flatMap_nil, List.nil_append, readJsonString_cons, if_pos rfl]
      exact whole.symm
  | cons piece pieces ih =>
      have split : spelling (piece :: pieces) ++ '"'.toUInt8 :: rest =
          piece.text ++ (spelling pieces ++ '"'.toUInt8 :: rest) := by
        rw [spelling, List.flatMap_cons, ← spelling, List.append_assoc]
      have mapped {byte : UInt8} (decoded : plainByte piece = some byte) :
          (piece :: pieces).mapM plainByte = (pieces.mapM plainByte).map (byte :: ·) := by
        rw [List.mapM_cons, decoded]
        cases pieces.mapM plainByte <;> rfl
      have refused (unknown : plainByte piece = none) : (piece :: pieces).mapM plainByte = none := by
        rw [List.mapM_cons, unknown]
        rfl
      rw [split]
      cases piece with
      | plain byte valid =>
          have notQuote : byte ≠ '"'.toUInt8 := by
            rintro rfl
            exact absurd valid (by decide)
          have notEscape : byte ≠ '\\'.toUInt8 := by
            rintro rfl
            exact absurd valid (by decide)
          have printable : ¬ byte < 0x20 := by
            simp only [isPlain, Bool.and_eq_true, decide_eq_true_eq] at valid
            exact UInt8.not_lt.mpr valid.1.1
          rw [mapped rfl, Piece.text, List.singleton_append, readJsonString_cons, if_neg notQuote,
            if_neg printable, if_neg notEscape]
          exact push_eq byte _ ih
      | escape mark valid =>
          rw [Piece.text, List.cons_append, List.singleton_append, readJsonString_cons,
            if_neg (by decide), if_neg (by decide), if_pos rfl]
          change (if mark = '"'.toUInt8 ∨ mark = '\\'.toUInt8 ∨ mark = '/'.toUInt8 then _ else _) = _
          by_cases known : mark = '"'.toUInt8 ∨ mark = '\\'.toUInt8 ∨ mark = '/'.toUInt8
          · rw [mapped (if_pos known), if_pos known]
            exact push_eq mark _ ih
          · rw [refused (if_neg known), if_neg known]
            rfl
      | unicode digits four valid =>
          rw [refused rfl, Piece.text, List.cons_append, List.cons_append, readJsonString_cons,
            if_neg (by decide), if_neg (by decide), if_pos rfl]
          rfl

theorem cString_of_noNul {text : List UInt8} (noNul : NoNul text) : cString text = text := by
  have all : ∀ c ∈ text, (c != 0) = true := fun c member => bne_iff_ne.mpr (noNul c member)
  have whole : (text ++ []).takeWhile (· != 0) = text ++ [].takeWhile (· != 0) :=
    List.takeWhile_append_of_pos all
  rwa [List.append_nil, List.takeWhile_nil, List.append_nil] at whole

/-! ## Documents -/

theorem jsonValueStart_of_entry {key : List UInt8} {text : Text .value} {lead trail : Blank}
    {entry : Text .value × List UInt8} (word : IsKey key)
    (unescaped : ∀ name ∈ names text, NoEscapedQuote name)
    (first : (entries key text trail.text).head? = some entry) :
    jsonValueStart (cString (lead.text ++ (render text ++ trail.text))) key = some entry.2 := by
  have closed : Closed trail.text := ⟨trail.text, [], by simp, trail.spaces, by simp⟩
  have noNul : NoNul (lead.text ++ (render text ++ trail.text)) :=
    noNul_append.mpr ⟨lead.noNul, noNul_append.mpr ⟨render_noNul text, trail.noNul⟩⟩
  rw [cString_of_noNul noNul]
  change findJsonValue (needle key) 0 _ = _
  rw [find_blank, find_render word unescaped closed, first]
  rfl

theorem parseJsonString_of_value {json key : List UInt8} {value : Text .value} {rest : List UInt8}
    (maxLen : Nat) (found : jsonValueStart (cString json) key = some (render value ++ rest)) :
    parseJsonString json key maxLen = (plainString value).filter (·.length ≤ maxLen) := by
  obtain ⟨c, later, started, -⟩ := render_head value
  rw [started] at found
  rw [parseJsonString, found]
  have quoteless (other : c ≠ '"'.toUInt8) (noString : plainString value = none) :
      (if c = '"'.toUInt8 then readJsonString maxLen [] (later ++ rest) else none) =
        (plainString value).filter (·.length ≤ maxLen) := by
    rw [if_neg other, noString]
    rfl
  cases value with
  | string pieces =>
      cases started
      have read := @readJsonString_eq maxLen [] pieces rest (Nat.zero_le maxLen)
      simp only [List.nil_append, Option.map_id'] at read
      change (if '"'.toUInt8 = '"'.toUInt8 then
        readJsonString maxLen [] (spelling pieces ++ ['"'.toUInt8] ++ rest) else none) = _
      rw [if_pos rfl, List.append_assoc]
      exact read
  | literal text valid =>
      refine quoteless ?_ rfl
      have solid := (isLiteral_solid valid).2 c (by rw [show text = c :: later from started]; simp)
      simp only [isSolid, Bool.and_eq_true, bne_iff_ne] at solid
      exact solid.1.2
  | emptyArray blank =>
      cases started
      exact quoteless (by decide) rfl
  | array elements =>
      cases started
      exact quoteless (by decide) rfl
  | emptyObject blank =>
      cases started
      exact quoteless (by decide) rfl
  | object members =>
      cases started
      exact quoteless (by decide) rfl

/-- Of a text of JSON with the key spelled out as one name, and no quote escaped in a
name, the scanner finds the value of that name, and the string it is. -/
theorem jsonValueStart_document {key : List UInt8} {text : Text .value} {value : Text .value}
    {start : List UInt8} (lead trail : Blank) (word : IsKey key)
    (unescaped : ∀ name ∈ names text, NoEscapedQuote name)
    (once : entries key text trail.text = [(value, start)]) :
    let document := lead.text ++ (render text ++ trail.text)
    (∃ front rest, document = front ++ start ∧ start = render value ++ rest) ∧
      jsonValueStart (cString document) key = some start ∧
      ∀ maxLen, parseJsonString document key maxLen =
        (plainString value).filter (·.length ≤ maxLen) := by
  intro document
  have member : (value, start) ∈ entries key text trail.text := by simp [once]
  obtain ⟨⟨rest, starts⟩, front, suffix⟩ := entries_suffix member
  have first : (entries key text trail.text).head? = some (value, start) := by rw [once]; rfl
  have found : jsonValueStart (cString document) key = some start :=
    jsonValueStart_of_entry word unescaped first
  refine ⟨⟨lead.text ++ front, rest, ?_, starts⟩, found, fun maxLen => ?_⟩
  · rw [List.append_assoc, suffix]
  · apply parseJsonString_of_value maxLen
    exact found.trans (congrArg some starts)

/-- A text that mentions the key, and an escaped slash. -/
theorem jsonValueStart_document_mentioned :
    jsonValueStart (cString (ascii "\x7b\"a\":\"\\\"key\\\":\",\"key\":\"x\\/\"\x7d")) (ascii "key") =
        some (ascii "\"x\\/\"\x7d") ∧
      parseJsonString (ascii "\x7b\"a\":\"\\\"key\\\":\",\"key\":\"x\\/\"\x7d") (ascii "key") 2 =
        some (ascii "x/") := by
  have found := @jsonValueStart_document (ascii "key")
    (.object (.member ⟨noBlank, plainPieces (ascii "a") (by decide +kernel), noBlank, noBlank⟩
      (.string [.escape '"'.toUInt8 (by decide), .plain 'k'.toUInt8 (by decide),
        .plain 'e'.toUInt8 (by decide), .plain 'y'.toUInt8 (by decide),
        .escape '"'.toUInt8 (by decide), .plain ':'.toUInt8 (by decide)]) noBlank
      (.lastMember ⟨noBlank, plainPieces (ascii "key") (by decide +kernel), noBlank, noBlank⟩
        (.string [.plain 'x'.toUInt8 (by decide), .escape '/'.toUInt8 (by decide)]) noBlank)))
    (.string [.plain 'x'.toUInt8 (by decide), .escape '/'.toUInt8 (by decide)])
    (ascii "\"x\\/\"\x7d") noBlank noBlank (by decide +kernel) (by decide +kernel) rfl
  exact ⟨found.2.1, found.2.2 2⟩

/-! ## Names with escapes -/

def hexNumber (digits : List UInt8) : Nat :=
  digits.foldl (fun value c => value * 16 +
    if isDigit c then c.toNat - '0'.toNat else (c.toNat ||| 0x20) - 'a'.toNat + 10) 0

/-- What a piece of a name stands for, if that is an ASCII character. -/
def asciiByte : Piece → Option UInt8
  | .plain byte _ => some byte
  | .escape mark _ =>
      some (if mark = 'b'.toUInt8 then 0x08 else if mark = 'f'.toUInt8 then 0x0c
        else if mark = 'n'.toUInt8 then 0x0a else if mark = 'r'.toUInt8 then 0x0d
        else if mark = 't'.toUInt8 then 0x09 else mark)
  | .unicode digits _ _ => if hexNumber digits < 128 then some (.ofNat (hexNumber digits)) else none

def isNamed (key : List UInt8) (name : List Piece) : Bool := name.map asciiByte == key.map some

/-- A name may be spelled with escapes, and then the scanner passes it. -/
theorem jsonValueStart_escapedName :
    ¬ ∀ (key : List UInt8) (text : Text .value), IsKey key →
      (∀ name ∈ names text, NoEscapedQuote name) → (names text).countP (isNamed key) = 1 →
        (jsonValueStart (cString (render text)) key).isSome = true := by
  intro all
  have found := all (ascii "key")
    (.object (.lastMember
      ⟨noBlank, [.plain 'k'.toUInt8 (by decide), .unicode (ascii "0065") rfl (by decide +kernel),
        .plain 'y'.toUInt8 (by decide)], noBlank, noBlank⟩ (.string []) noBlank))
    (by decide +kernel) (by decide +kernel) (by decide +kernel)
  have passed : jsonValueStart (cString (ascii "\x7b\"k\\u0065y\":\"\"\x7d")) (ascii "key") = none := by
    decide +kernel
  change (jsonValueStart (cString (ascii "\x7b\"k\\u0065y\":\"\"\x7d")) (ascii "key")).isSome = true at found
  rw [passed] at found
  cases found

end Presence.Firmware
