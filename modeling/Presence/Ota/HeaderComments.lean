import Mathlib.Data.List.TakeWhile
import Presence.Data.Bytes
import Presence.Ota.HeaderKey

namespace Presence.Ota

open Presence.Data Presence.Firmware

/-! # Comments in the header

The tokens of a header, white space among them, with comments put between any two.
-/

/-- A comment; what ends it is nowhere before its end. -/
inductive Comment where
  | block (content : List UInt8)
      (ends : Search.index (ascii "*/") (content ++ ascii "*/") = some content.length)
  | line (content : List UInt8)
      (ends : '\n'.toUInt8 ∉ content ∧ content.getLast? ≠ some '\\'.toUInt8)

def Comment.text : Comment → List UInt8
  | .block content _ => ascii "/*" ++ content ++ ascii "*/"
  | .line content _ => ascii "//" ++ content ++ ascii "\n"

inductive Piece where
  | token (text : List UInt8)
  | comment (comment : Comment)

namespace Piece

def text : Piece → List UInt8
  | token text => text
  | comment note => note.text

def live : Piece → Option (List UInt8)
  | token text => some text
  | comment _ => none

end Piece

def spell (pieces : List Piece) : List UInt8 := pieces.flatMap Piece.text

def tokens (pieces : List Piece) : List (List UInt8) := pieces.filterMap Piece.live

/-- Where the comments stand, whatever they say. -/
def places (pieces : List Piece) : List (Option (List UInt8)) := pieces.map Piece.live

/-- Commas and white space. -/
def isMark (byte : UInt8) : Bool := byte == ','.toUInt8 || isSpace byte || byte == 11

inductive InitToken where
  | literal (high low : UInt8) (digits : (nibble high).isSome ∧ (nibble low).isSome)
  | mark (byte : UInt8) (plain : isMark byte = true)

namespace InitToken

def text : InitToken → List UInt8
  | literal high low _ => ['0'.toUInt8, 'x'.toUInt8, high, low]
  | mark byte _ => [byte]

def byte? : InitToken → Option UInt8
  | literal high low _ => do some ((← nibble high) <<< 4 ||| (← nibble low))
  | mark _ _ => none

end InitToken

def Spaces (blank : List UInt8) : Prop := ∀ c ∈ blank, isSpace c = true

/-- A header without comments, taken apart at its declaration of the key. -/
structure Header where
  front : List (List UInt8)
  before : List UInt8
  after : List UInt8
  init : List InitToken
  back : List (List UInt8)
  beforeSpaces : Spaces before
  afterSpaces : Spaces after
  counted : (init.filterMap InitToken.byte?).length = 32

namespace Header

variable (header : Header)

/-- The declaration up to its opening brace. -/
def head : List (List UInt8) :=
  [keyName, ascii "[", ascii "32", ascii "]"] ++ header.before.map ([·]) ++ [ascii "="] ++
    header.after.map ([·]) ++ [[openBrace]]

/-- All tokens up to the closing brace. -/
def declared : List (List UInt8) :=
  header.front ++ header.head ++ header.init.map InitToken.text ++ [[closeBrace]]

def text : List UInt8 := (header.declared ++ header.back).flatten

/-- The key that the compiler sees. -/
def key : PublicKey := ⟨(header.init.filterMap InitToken.byte?).toArray, header.counted⟩

/-- Nothing in front of the declaration looks like another one. -/
def Single : Prop :=
  Matching.NoneIn headerKey header.front.flatten
    ((header.head ++ header.init.map InitToken.text ++ [[closeBrace]] ++ header.back).flatten)

/-- No comment stands in front of the closing brace. -/
def Behind (pieces : List Piece) : Prop :=
  ∃ back, pieces = header.declared.map .token ++ back

/-- Comments that the expressions are not misled by. -/
structure Clean (pieces front init back : List Piece) : Prop where
  whole : pieces = front ++ header.head.map .token ++ init ++ .token [closeBrace] :: back
  frontTokens : tokens front = header.front
  initTokens : tokens init = header.init.map InitToken.text
  /-- No comment in front of the declaration holds another one. -/
  first : Matching.NoneIn headerKey (spell front)
    (spell (header.head.map .token ++ init ++ .token [closeBrace] :: back))
  /-- No comment in the initializer holds its closing brace. -/
  braces : ∀ note, .comment note ∈ init → closeBrace ∉ note.text
  /-- No block comment seems to begin in a line comment, and to end in the initializer. -/
  openers : ∀ before content ends after,
    init = before ++ .comment (.line content ends) :: after →
    Matching.NoneIn blockComment (ascii "//" ++ content) (ascii "\n" ++ spell after)

end Header

/-! ## The declaration -/

def opening (before after : List UInt8) : List UInt8 :=
  keyName ++ ascii "[32]" ++ (before ++ '='.toUInt8 :: (after ++ [openBrace]))

theorem Header.flatten_head (header : Header) :
    header.head.flatten = opening header.before header.after := by
  have singles : ∀ blank : List UInt8, (blank.map ([·])).flatten = blank := by
    intro blank
    induction blank with
    | nil => rfl
    | cons c blank ih => exact congrArg (c :: ·) ih
  have size : ascii "[" ++ (ascii "32" ++ ascii "]") = ascii "[32]" := by decide
  simp only [Header.head, List.flatten_append, List.flatten_cons, List.flatten_nil, singles,
    List.append_nil, List.append_assoc, opening, ← size]
  rfl

theorem space_spaces : Spaces (ascii " ") := by
  intro c member
  obtain rfl := List.mem_singleton.mp member
  rfl

theorem dropWhile_spaces {blank rest : List UInt8} {stop : UInt8} (spaces : Spaces blank)
    (solid : isSpace stop = false) :
    (blank ++ stop :: rest).dropWhile isSpace = stop :: rest := by
  rw [List.dropWhile_append_of_pos spaces, List.dropWhile_cons_of_neg (by simp [solid])]

theorem behindByte_eq_some {byte : UInt8} {text rest : List UInt8} :
    behindByte byte text = some rest ↔ text = byte :: rest := by
  cases text with
  | nil => exact ⟨nofun, nofun⟩
  | cons first text =>
    rw [behindByte, List.cons.injEq]
    split
    next same => simp [same]
    next other => simp [other]

theorem openedKey_eq_some {text rest : List UInt8} : openedKey text = some rest ↔
    ∃ before after, Spaces before ∧ Spaces after ∧ text = opening before after ++ rest := by
  rw [openedKey]
  constructor
  · intro read
    split at read
    next named =>
      obtain ⟨tail, rfl⟩ := List.isPrefixOf_iff_prefix.mp named
      rw [List.drop_left] at read
      obtain ⟨middle, equals, read⟩ := Option.bind_eq_some_iff.mp read
      rw [behindByte_eq_some] at equals read
      refine ⟨tail.takeWhile isSpace, middle.takeWhile isSpace,
        fun c => List.mem_takeWhile_imp, fun c => List.mem_takeWhile_imp, ?_⟩
      have first : tail = tail.takeWhile isSpace ++ '='.toUInt8 :: middle := by
        rw [← equals, List.takeWhile_append_dropWhile]
      have second : middle = middle.takeWhile isSpace ++ openBrace :: rest := by
        rw [← read, List.takeWhile_append_dropWhile]
      simp only [opening, List.append_assoc, List.cons_append, List.nil_append]
      rw [← second, ← first]
    next => exact absurd read nofun
  · rintro ⟨before, after, spaces, more, rfl⟩
    have named : (keyName ++ ascii "[32]").isPrefixOf (opening before after ++ rest) = true := by
      rw [List.isPrefixOf_iff_prefix, opening, List.append_assoc]
      exact List.prefix_append _ _
    rw [if_pos named, opening, List.append_assoc _ _ rest, List.drop_left, List.append_assoc,
      List.cons_append, dropWhile_spaces spaces (by decide)]
    refine Option.bind_eq_some_iff.mpr ⟨_, behindByte_eq_some.mpr rfl, ?_⟩
    rw [List.append_assoc, List.singleton_append, dropWhile_spaces more (by decide)]
    exact behindByte_eq_some.mpr rfl

theorem headerKey_of_opened {text rest : List UInt8} (opened : openedKey text = some rest)
    (closed : closeBrace ∈ rest) :
    headerKey text = some (rest.takeWhile (· != closeBrace)) := by
  rw [headerKey, opened]
  exact if_pos closed

theorem headerKey_opening {before after body rest : List UInt8} (spaces : Spaces before)
    (more : Spaces after) (inside : closeBrace ∉ body) :
    headerKey (opening before after ++ (body ++ closeBrace :: rest)) = some body := by
  rw [headerKey_of_opened (openedKey_eq_some.mpr ⟨before, after, spaces, more, rfl⟩) (by simp)]
  have inner : ∀ c ∈ body, (c != closeBrace) = true := fun c member =>
    bne_iff_ne.mpr fun same => inside (same ▸ member)
  rw [List.takeWhile_append_of_pos inner, List.takeWhile_cons_of_neg (by simp), List.append_nil]

/-! ## Where no declaration begins -/

/-- A byte that does not occur in front of an initializer. -/
def Stops (stop : UInt8) : Prop := stop ∉ keyName ++ ascii "[32]" ∧ isSpace stop = false ∧
  stop ≠ '='.toUInt8 ∧ stop ≠ openBrace

theorem Stops.not_mem_opening {stop : UInt8} (stops : Stops stop) {before after : List UInt8}
    (spaces : Spaces before) (more : Spaces after) : stop ∉ opening before after := by
  obtain ⟨name, solid, equals, brace⟩ := stops
  have blank : ∀ {text : List UInt8}, Spaces text → stop ∉ text := by
    intro text spaces member
    exact Bool.false_ne_true (solid.symm.trans (spaces stop member))
  simp only [opening, List.mem_append, List.mem_cons, List.not_mem_nil, or_false, not_or] at name ⊢
  exact ⟨name, blank spaces, equals, blank more, brace⟩

/-- What begins in front of such a byte is there in front of anything else. -/
theorem opened_in_front {stop : UInt8} (stops : Stops stop) {front rest inside : List UInt8}
    (opened : openedKey (front ++ stop :: rest) = some inside) :
    openBrace ∈ front ∧ ∀ other, ∃ tail, openedKey (front ++ other) = some (tail ++ other) := by
  obtain ⟨before, after, spaces, more, same⟩ := openedKey_eq_some.mp opened
  have absent := stops.not_mem_opening spaces more
  obtain ⟨tail, rfl⟩ : ∃ tail, front = opening before after ++ tail := by
    rcases List.append_eq_append_iff.mp same with ⟨tail, whole, middle⟩ | ⟨tail, whole, -⟩
    · cases tail with
      | nil => exact ⟨[], by rw [whole, List.append_nil, List.append_nil]⟩
      | cons first tail =>
        obtain ⟨rfl, -⟩ := List.cons.inj middle
        exact absurd (whole ▸ List.mem_append_right front List.mem_cons_self) absent
    · exact ⟨tail, whole⟩
  refine ⟨List.mem_append_left _ (by simp [opening]), fun other => ⟨tail, ?_⟩⟩
  exact openedKey_eq_some.mpr ⟨before, after, spaces, more, List.append_assoc ..⟩

/-- A change behind such a byte makes no new declaration in front of it. -/
theorem noneIn_change {stop : UInt8} (stops : Stops stop) {front kept rest : List UInt8}
    (bare : Matching.NoneIn headerKey front (kept ++ rest)) (closed : closeBrace ∈ rest)
    (changed : List UInt8) : Matching.NoneIn headerKey front (kept ++ stop :: changed) := by
  induction front with
  | nil => trivial
  | cons letter front ih =>
    refine ⟨?_, ih bare.2⟩
    rw [← List.append_assoc, headerKey]
    cases opened : openedKey (letter :: front ++ kept ++ stop :: changed) with
    | none => rfl
    | some inside =>
      obtain ⟨tail, again⟩ := (opened_in_front stops opened).2 rest
      have found := headerKey_of_opened again (List.mem_append_right _ closed)
      rw [List.append_assoc, bare.1] at found
      exact absurd found nofun

/-- No declaration begins in a text without a brace in front of such a byte. -/
theorem noneIn_unopened {stop : UInt8} (stops : Stops stop) {front : List UInt8}
    (unopened : openBrace ∉ front) (rest : List UInt8) :
    Matching.NoneIn headerKey front (stop :: rest) := by
  induction front with
  | nil => trivial
  | cons letter front ih =>
    refine ⟨?_, ih (mt (List.mem_cons_of_mem letter) unopened)⟩
    rw [headerKey]
    cases opened : openedKey (letter :: front ++ stop :: rest) with
    | none => rfl
    | some inside => exact absurd (opened_in_front stops opened).1 unopened

/-! ## The body of an initializer -/

theorem digit_plain {c : UInt8} (digit : (nibble c).isSome = true) :
    c ≠ '/'.toUInt8 ∧ c ≠ closeBrace := by
  have all := @forall_byte
    (fun c => (nibble c).isSome = true → c ≠ '/'.toUInt8 ∧ c ≠ closeBrace) (by decide +kernel) c
  exact all digit

theorem mark_plain {c : UInt8} (mark : isMark c = true) :
    c ≠ '/'.toUInt8 ∧ c ≠ closeBrace ∧ c ≠ '0'.toUInt8 := by
  have all := @forall_byte (fun c => isMark c = true →
    c ≠ '/'.toUInt8 ∧ c ≠ closeBrace ∧ c ≠ '0'.toUInt8) (by decide +kernel) c
  exact all mark

theorem InitToken.plain (token : InitToken) :
    '/'.toUInt8 ∉ token.text ∧ closeBrace ∉ token.text := by
  cases token with
  | literal high low digits =>
    obtain ⟨first, second⟩ := digit_plain digits.1
    obtain ⟨third, fourth⟩ := digit_plain digits.2
    simp only [InitToken.text, List.mem_cons, List.not_mem_nil, or_false, not_or]
    exact ⟨⟨by decide, by decide, first.symm, third.symm⟩, by decide, by decide, second.symm,
      fourth.symm⟩
  | mark byte plain =>
    obtain ⟨first, second, -⟩ := mark_plain plain
    simp only [InitToken.text, List.mem_singleton]
    exact ⟨first.symm, second.symm⟩

theorem first_of_ite {letter opener : UInt8} {p : Prop} [Decidable (letter = opener ∧ p)]
    {size : Option β} (found : (if letter = opener ∧ p then size else none) ≠ none) :
    letter = opener := by
  by_contra other
  exact found (if_neg fun both => other both.1)

/-- Each of the three expressions begins with a byte of its own. -/
theorem noneIn_of_opener {expression : List UInt8 → Option β} {opener : UInt8}
    (opens : ∀ letter text, expression (letter :: text) ≠ none → letter = opener)
    {front : List UInt8} (plain : opener ∉ front) (rest : List UInt8) :
    Matching.NoneIn expression front rest := by
  refine Matching.noneIn_of_first opens ?_ rest
  intro letter member same
  exact plain (same ▸ member)

theorem noneIn_blockComment {front : List UInt8} (plain : '/'.toUInt8 ∉ front)
    (rest : List UInt8) : Matching.NoneIn blockComment front rest := by
  refine noneIn_of_opener (fun letter text found => ?_) plain rest
  cases text with
  | nil => exact absurd rfl found
  | cons second text => exact first_of_ite found

theorem noneIn_lineComment {front : List UInt8} (plain : '/'.toUInt8 ∉ front)
    (rest : List UInt8) : Matching.NoneIn lineComment front rest := by
  refine noneIn_of_opener (fun letter text found => ?_) plain rest
  cases text with
  | nil => exact absurd rfl found
  | cons second text => exact first_of_ite found

theorem noneIn_headerByte {front : List UInt8} (plain : '0'.toUInt8 ∉ front)
    (rest : List UInt8) : Matching.NoneIn headerByte front rest := by
  refine noneIn_of_opener (fun letter text found => ?_) plain rest
  match text with
  | [] | [_] | [_, _] => exact absurd rfl found
  | second :: third :: fourth :: text => exact first_of_ite found

/-- The bytes of an initializer, wherever its text goes on. -/
theorem findAll_init (init : List InitToken) (rest : List UInt8) :
    Matching.findAll headerByte ((init.map InitToken.text).flatten ++ rest) =
      init.filterMap InitToken.byte? ++ Matching.findAll headerByte rest := by
  induction init with
  | nil => rfl
  | cons token init ih =>
    rw [List.map_cons, List.flatten_cons, List.append_assoc]
    cases token with
    | literal high low digits =>
      obtain ⟨top, readTop⟩ := Option.isSome_iff_exists.mp digits.1
      obtain ⟨bottom, readBottom⟩ := Option.isSome_iff_exists.mp digits.2
      have byte : (InitToken.literal high low digits).byte? = some (top <<< 4 ||| bottom) := by
        rw [InitToken.byte?, readTop, readBottom]
        rfl
      rw [List.filterMap_cons_some byte, List.cons_append, ← ih]
      refine Matching.findAll_match (List.cons_ne_nil _ _) ?_
      rw [InitToken.text, List.cons_append, List.cons_append, List.cons_append, List.cons_append,
        headerByte, if_pos ⟨rfl, rfl⟩, readTop, readBottom]
      rfl
    | mark byte plain =>
      have other : '0'.toUInt8 ∉ (InitToken.mark byte plain).text := by
        simpa [InitToken.text] using (mark_plain plain).2.2.symm
      have unread : (InitToken.mark byte plain).byte? = none := rfl
      rw [Matching.findAll_append (noneIn_headerByte other _), ih,
        List.filterMap_cons_none unread]

/-- A piece once the block comments are gone. -/
def Piece.unblocked : Piece → List UInt8
  | .token text => text
  | .comment (.block _ _) => []
  | .comment (.line content _) => ascii "//" ++ content ++ ascii "\n"

/-- A piece once all comments are gone. -/
def Piece.bare : Piece → List UInt8
  | .token text => text
  | .comment (.block _ _) => []
  | .comment (.line _ _) => ascii "\n"

theorem blockComment_text {content rest : List UInt8}
    (ends : Search.index (ascii "*/") (content ++ ascii "*/") = some content.length) :
    blockComment (ascii "/*" ++ content ++ ascii "*/" ++ rest) =
      some (ascii "/*" ++ content ++ ascii "*/").length := by
  have found := Search.index_append ends rest
  have comment : blockComment ('/'.toUInt8 :: '*'.toUInt8 :: (content ++ ascii "*/" ++ rest)) =
      some (content.length + 4) := by
    rw [blockComment, if_pos ⟨rfl, rfl⟩, found]
    rfl
  rw [List.append_assoc, List.append_assoc]
  rw [List.append_assoc] at comment
  refine comment.trans (congrArg some ?_)
  have two : (ascii "/*").length = 2 ∧ (ascii "*/").length = 2 := by decide
  simp only [List.length_append]
  omega

theorem lineComment_text {content rest : List UInt8} (ends : '\n'.toUInt8 ∉ content) :
    lineComment (ascii "//" ++ content ++ (ascii "\n" ++ rest)) =
      some (ascii "//" ++ content).length := by
  have newline : ascii "\n" = ['\n'.toUInt8] := by decide
  have inner : ∀ c ∈ content, (c != '\n'.toUInt8) = true := fun c member =>
    bne_iff_ne.mpr fun same => ends (same ▸ member)
  have taken : (content ++ '\n'.toUInt8 :: rest).takeWhile (· != '\n'.toUInt8) = content := by
    rw [List.takeWhile_append_of_pos inner, List.takeWhile_cons_of_neg (by simp), List.append_nil]
  have comment : lineComment ('/'.toUInt8 :: '/'.toUInt8 :: (content ++ '\n'.toUInt8 :: rest)) =
      some (content.length + 2) := by
    rw [lineComment, if_pos ⟨rfl, rfl⟩, taken]
  rw [newline, List.append_assoc]
  refine comment.trans (congrArg some ?_)
  rw [List.length_append, Nat.add_comm]
  rfl

/-- The first pass takes the block comments, if none seems to begin in a line comment. -/
theorem remove_blockComment {init : List Piece} (plain : ∀ text ∈ tokens init, '/'.toUInt8 ∉ text)
    (openers : ∀ before content ends after,
      init = before ++ .comment (.line content ends) :: after →
      Matching.NoneIn blockComment (ascii "//" ++ content) (ascii "\n" ++ spell after)) :
    Matching.remove blockComment (spell init) = init.flatMap Piece.unblocked := by
  induction init with
  | nil => rfl
  | cons piece init ih =>
    have later : ∀ before content ends after,
        init = before ++ .comment (.line content ends) :: after →
        Matching.NoneIn blockComment (ascii "//" ++ content) (ascii "\n" ++ spell after) :=
      fun before content ends after same => openers (piece :: before) content ends after
        (congrArg (piece :: ·) same)
    rw [spell, List.flatMap_cons, List.flatMap_cons, ← spell]
    cases piece with
    | token text =>
      obtain ⟨here, others⟩ := List.forall_mem_cons.mp plain
      rw [Piece.text, Piece.unblocked, Matching.remove_append (noneIn_blockComment here _),
        ih others later]
    | comment note =>
      cases note with
      | block content ends =>
        rw [Piece.text, Comment.text, Piece.unblocked,
          Matching.remove_match (by simp [ascii]) (blockComment_text ends), ih plain later]
        rfl
      | line content ends =>
        have outside := openers [] content ends init rfl
        rw [Piece.text, Comment.text, Piece.unblocked, List.append_assoc,
          Matching.remove_append outside,
          Matching.remove_append (noneIn_blockComment (by decide) _), ih plain later]
        simp only [List.append_assoc]

/-- The second pass takes the line comments, up to their line ends. -/
theorem remove_lineComment {init : List Piece} (plain : ∀ text ∈ tokens init, '/'.toUInt8 ∉ text) :
    Matching.remove lineComment (init.flatMap Piece.unblocked) = init.flatMap Piece.bare := by
  induction init with
  | nil => rfl
  | cons piece init ih =>
    rw [List.flatMap_cons, List.flatMap_cons]
    cases piece with
    | token text =>
      obtain ⟨here, others⟩ := List.forall_mem_cons.mp plain
      rw [Piece.unblocked, Piece.bare, Matching.remove_append (noneIn_lineComment here _),
        ih others]
    | comment note =>
      cases note with
      | block content ends => exact ih plain
      | line content ends =>
        rw [Piece.unblocked, Piece.bare, List.append_assoc,
          Matching.remove_match (by simp [ascii]) (lineComment_text ends.1),
          Matching.remove_append (noneIn_lineComment (by decide) _), ih plain]

/-- What is left spells the bytes. -/
theorem findAll_bare {init : List Piece} {written : List InitToken}
    (same : tokens init = written.map InitToken.text) :
    Matching.findAll headerByte (init.flatMap Piece.bare) =
      written.filterMap InitToken.byte? := by
  induction init generalizing written with
  | nil =>
    obtain rfl := List.map_eq_nil_iff.mp same.symm
    rfl
  | cons piece init ih =>
    rw [List.flatMap_cons]
    cases piece with
    | token text =>
      obtain ⟨token, others, rfl, here, later⟩ := List.map_eq_cons_iff.mp same.symm
      have first := findAll_init [token] (init.flatMap Piece.bare)
      rw [List.map_singleton, List.flatten_singleton, here, ih later.symm] at first
      rw [Piece.bare, first, ← List.filterMap_append]
      rfl
    | comment note =>
      cases note with
      | block content ends => exact ih same
      | line content ends =>
        rw [Piece.bare, Matching.findAll_append (noneIn_headerByte (by decide) _)]
        exact ih same

theorem bodyBytes_clean {init : List Piece} {written : List InitToken}
    (same : tokens init = written.map InitToken.text)
    (openers : ∀ before content ends after,
      init = before ++ .comment (.line content ends) :: after →
      Matching.NoneIn blockComment (ascii "//" ++ content) (ascii "\n" ++ spell after)) :
    bodyBytes (spell init) = written.filterMap InitToken.byte? := by
  have plain : ∀ text ∈ tokens init, '/'.toUInt8 ∉ text := by
    rw [same, List.forall_mem_map]
    exact fun token _ => token.plain.1
  rw [bodyBytes, remove_blockComment plain openers, remove_lineComment plain, findAll_bare same]

/-! ## What is read -/

instance (stop : UInt8) : Decidable (Stops stop) :=
  inferInstanceAs (Decidable (_ ∧ _ ∧ _ ∧ _))

theorem stops_closeBrace : Stops closeBrace := by decide

theorem stops_slash : Stops '/'.toUInt8 := by decide

theorem headerKey_stop {stop : UInt8} (stops : Stops stop) (rest : List UInt8) :
    headerKey (stop :: rest) = none := by
  rw [headerKey]
  cases opened : openedKey (stop :: rest) with
  | none => rfl
  | some inside =>
    exact absurd (@opened_in_front stop stops [] rest inside opened).1 List.not_mem_nil

namespace Header

variable {header : Header}

/-- A declaration of which the body is left with its bytes. -/
theorem parse_declaration {front body rest : List UInt8}
    (first : Matching.NoneIn headerKey front
      (header.head.flatten ++ (body ++ closeBrace :: rest)))
    (inside : closeBrace ∉ body) (left : bodyBytes body = header.init.filterMap InitToken.byte?) :
    parseHeaderKey (front ++ (header.head.flatten ++ (body ++ closeBrace :: rest))) =
      .ok header.key := by
  have found : Matching.find headerKey (front ++ (header.head.flatten ++
      (body ++ closeBrace :: rest))) = some body := by
    rw [Matching.find_append first, header.flatten_head]
    exact Matching.find_here (headerKey_opening header.beforeSpaces header.afterSpaces inside)
  rw [parseHeaderKey, found]
  simp only [left, header.counted, dite_true]
  rfl

theorem not_mem_init : closeBrace ∉ (header.init.map InitToken.text).flatten := by
  intro member
  obtain ⟨text, listed, inside⟩ := List.mem_flatten.mp member
  obtain ⟨token, -, rfl⟩ := List.mem_map.mp listed
  exact token.plain.2 inside

theorem flatten_declared (rest : List UInt8) : header.declared.flatten ++ rest =
    header.front.flatten ++ (header.head.flatten ++
      ((header.init.map InitToken.text).flatten ++ closeBrace :: rest)) := by
  simp [declared]

theorem single_iff : header.Single ↔ Matching.NoneIn headerKey header.front.flatten
    (header.head.flatten ++ ((header.init.map InitToken.text).flatten ++
      closeBrace :: header.back.flatten)) := by
  simp [Single]

theorem tokens_map (texts : List (List UInt8)) : tokens (texts.map .token) = texts := by
  induction texts with
  | nil => rfl
  | cons text texts ih => exact congrArg (text :: ·) ih

theorem tokens_append (pieces more : List Piece) :
    tokens (pieces ++ more) = tokens pieces ++ tokens more := List.filterMap_append

theorem spell_map (texts : List (List UInt8)) : spell (texts.map .token) = texts.flatten := by
  induction texts with
  | nil => rfl
  | cons text texts ih => exact congrArg (text ++ ·) ih

theorem bodyBytes_init : bodyBytes (header.init.map InitToken.text).flatten =
    header.init.filterMap InitToken.byte? := by
  rw [← spell_map]
  refine bodyBytes_clean (tokens_map _) ?_
  intro before content ends after same
  have member : Piece.comment (.line content ends) ∈
      (header.init.map InitToken.text).map Piece.token := same ▸ by simp
  simp at member

/-- What stands behind the closing brace makes no difference. -/
theorem parse_behind (single : header.Single) (rest : List UInt8) :
    parseHeaderKey (header.declared.flatten ++ rest) = .ok header.key := by
  rw [flatten_declared]
  refine parse_declaration ?_ not_mem_init bodyBytes_init
  have bare := single_iff.mp single
  rw [← List.append_assoc] at bare ⊢
  exact noneIn_change stops_closeBrace bare List.mem_cons_self rest

/-- The header without comments is read as the compiler reads it. -/
theorem parse_text (single : header.Single) : parseHeaderKey header.text = .ok header.key := by
  rw [text, List.flatten_append]
  exact parse_behind single _

theorem spell_append (pieces more : List Piece) :
    spell (pieces ++ more) = spell pieces ++ spell more := List.flatMap_append

theorem parse_clean {pieces front init back : List Piece}
    (clean : header.Clean pieces front init back) :
    parseHeaderKey (spell pieces) = .ok header.key := by
  have text : spell pieces = spell front ++ (header.head.flatten ++
      (spell init ++ closeBrace :: spell back)) := by
    rw [clean.whole, spell_append, spell_append, spell_append, spell_map]
    simp only [List.append_assoc]
    rfl
  have inside : closeBrace ∉ spell init := by
    intro member
    obtain ⟨piece, listed, here⟩ := List.mem_flatMap.mp member
    cases piece with
    | token text =>
      have written : text ∈ tokens init := List.mem_filterMap.mpr ⟨_, listed, rfl⟩
      rw [clean.initTokens] at written
      obtain ⟨token, -, rfl⟩ := List.mem_map.mp written
      exact token.plain.2 here
    | comment note => exact clean.braces note listed here
  rw [text]
  refine parse_declaration ?_ inside (bodyBytes_clean clean.initTokens clean.openers)
  have first := clean.first
  rw [spell_append, spell_append, spell_map, List.append_assoc] at first
  exact first

end Header

/-! ## Comments that mislead -/

def decoyBytes : List UInt8 := (List.replicate 33 (ascii "0x00,")).flatten

def decoyHead : List UInt8 := opening (ascii " ") (ascii " ")

theorem decoy_ends : Search.index (ascii "*/")
    (decoyHead ++ decoyBytes ++ [closeBrace] ++ ascii "*/") =
      some (decoyHead ++ decoyBytes ++ [closeBrace]).length := by
  decide +kernel

/-- A comment that holds a declaration with one byte too many. -/
def decoy : Comment := .block (decoyHead ++ decoyBytes ++ [closeBrace]) decoy_ends

theorem headerKey_decoy (body rest : List UInt8) {before after : List UInt8}
    (spaces : Spaces before) (more : Spaces after) (inside : closeBrace ∉ body) :
    headerKey (opening before after ++ (body ++ (decoy.text ++ rest))) =
      some (body ++ (ascii "/*" ++ decoyHead ++ decoyBytes)) := by
  have junk : closeBrace ∉ ascii "/*" ++ decoyHead ++ decoyBytes := by decide +kernel
  have absent : closeBrace ∉ body ++ (ascii "/*" ++ decoyHead ++ decoyBytes) := by
    rw [List.mem_append]
    exact not_or.mpr ⟨inside, junk⟩
  rw [← @headerKey_opening before after _ (ascii "*/" ++ rest) spaces more absent]
  simp only [decoy, Comment.text, List.append_assoc, List.cons_append, List.nil_append]

/-- Its bytes come on top of all that stand in front of it. -/
theorem bodyBytes_decoy (init : List InitToken) :
    32 < (bodyBytes ((init.map InitToken.text).flatten ++
      (ascii "/*" ++ decoyHead ++ decoyBytes))).length := by
  have plain : '/'.toUInt8 ∉ (init.map InitToken.text).flatten := by
    intro member
    obtain ⟨text, listed, inside⟩ := List.mem_flatten.mp member
    obtain ⟨token, -, rfl⟩ := List.mem_map.mp listed
    exact token.plain.1 inside
  have blocks : Matching.remove blockComment (ascii "/*" ++ decoyHead ++ decoyBytes) =
      ascii "/*" ++ decoyHead ++ decoyBytes := by decide +kernel
  have lines : Matching.remove lineComment (ascii "/*" ++ decoyHead ++ decoyBytes) =
      ascii "/*" ++ decoyHead ++ decoyBytes := by decide +kernel
  have count : (Matching.findAll headerByte
      (ascii "/*" ++ decoyHead ++ decoyBytes)).length = 33 := by decide +kernel
  rw [bodyBytes, Matching.remove_append (noneIn_blockComment plain _), blocks,
    Matching.remove_append (noneIn_lineComment plain _), lines, findAll_init,
    List.length_append, count]
  omega

theorem parseHeaderKey_long {text body : List UInt8}
    (found : Matching.find headerKey text = some body) (long : 32 < (bodyBytes body).length)
    (key : PublicKey) : parseHeaderKey text ≠ .ok key := by
  rw [parseHeaderKey, found]
  dsimp only
  rw [dif_neg (by omega)]
  exact nofun

/-- In front of the initializer's brace the decoy is taken for the declaration itself. -/
theorem misread_in_front {front : List UInt8} (rest : List UInt8)
    (first : Matching.NoneIn headerKey front (decoy.text ++ rest)) (key : PublicKey) :
    parseHeaderKey (front ++ (decoy.text ++ rest)) ≠ .ok key := by
  have opens : decoy.text ++ rest = ['/'.toUInt8, '*'.toUInt8] ++
      (decoyHead ++ (decoyBytes ++ closeBrace :: (ascii "*/" ++ rest))) := by
    simp only [decoy, Comment.text, List.append_assoc, List.cons_append, List.nil_append]
    rfl
  have skipped : Matching.NoneIn headerKey ['/'.toUInt8, '*'.toUInt8]
      (decoyHead ++ (decoyBytes ++ closeBrace :: (ascii "*/" ++ rest))) :=
    ⟨headerKey_stop stops_slash _, headerKey_stop (by decide) _, trivial⟩
  refine @parseHeaderKey_long _ decoyBytes ?_ (by decide +kernel) key
  rw [Matching.find_append first, opens, Matching.find_append skipped]
  refine Matching.find_here (headerKey_opening space_spaces space_spaces ?_)
  decide +kernel

/-- Inside the initializer the decoy closes it. -/
theorem misread_inside {header : Header} (single : header.Single)
    {written remaining : List InitToken} (split : header.init = written ++ remaining)
    (rest : List UInt8) (key : PublicKey) :
    parseHeaderKey (header.front.flatten ++ (header.head.flatten ++
      ((written.map InitToken.text).flatten ++ (decoy.text ++ rest)))) ≠ .ok key := by
  have bare := Header.single_iff.mp single
  have slash : decoy.text ++ rest = '/'.toUInt8 :: (decoy.text ++ rest).tail := rfl
  have inside : closeBrace ∉ (written.map InitToken.text).flatten := by
    have absent := @Header.not_mem_init header
    rw [split, List.map_append, List.flatten_append, List.mem_append, not_or] at absent
    exact absent.1
  have first : Matching.NoneIn headerKey header.front.flatten (header.head.flatten ++
      ((written.map InitToken.text).flatten ++ (decoy.text ++ rest))) := by
    rw [split, List.map_append, List.flatten_append, List.append_assoc, ← List.append_assoc] at bare
    rw [slash, ← List.append_assoc]
    exact noneIn_change stops_slash bare (by simp) _
  refine parseHeaderKey_long ?_ (bodyBytes_decoy written) key
  rw [Matching.find_append first, header.flatten_head]
  exact Matching.find_here
    (headerKey_decoy _ rest header.beforeSpaces header.afterSpaces inside)

/-- Only its last token opens the initializer. -/
theorem Header.unopened {header : Header} {later left : List (List UInt8)}
    (split : header.head = later ++ left) (some : left ≠ []) : openBrace ∉ later.flatten := by
  have brace : isSpace openBrace = false := by decide
  have spaces : ∀ {blank : List UInt8}, Spaces blank →
      ∀ text ∈ blank.map ([·]), openBrace ∉ text := by
    intro blank spaces text listed inside
    obtain ⟨c, member, rfl⟩ := List.mem_map.mp listed
    obtain rfl := List.mem_singleton.mp inside
    exact Bool.false_ne_true (brace.symm.trans (spaces _ member))
  have front : later ++ left.dropLast = [keyName, ascii "[", ascii "32", ascii "]"] ++
      header.before.map ([·]) ++ [ascii "="] ++ header.after.map ([·]) := by
    have cut := congrArg List.dropLast split
    rw [List.dropLast_append_of_ne_nil some, Header.head, List.dropLast_concat] at cut
    exact cut.symm
  intro member
  obtain ⟨text, listed, inside⟩ := List.mem_flatten.mp member
  have shown : text ∈ [keyName, ascii "[", ascii "32", ascii "]"] ++
      header.before.map ([·]) ++ [ascii "="] ++ header.after.map ([·]) :=
    front ▸ List.mem_append_left _ listed
  simp only [List.mem_append] at shown
  rcases shown with ((named | blank) | equals) | blank
  · have plain : ∀ text ∈ [keyName, ascii "[", ascii "32", ascii "]"], openBrace ∉ text := by decide
    exact plain text named inside
  · exact spaces header.beforeSpaces text blank inside
  · obtain rfl := List.mem_singleton.mp equals
    exact absurd inside (by decide)
  · exact spaces header.afterSpaces text blank inside

/-- A decoy in front of the closing brace is read for the key, or along with it. -/
theorem misread {header : Header} (single : header.Single) {texts others : List (List UInt8)}
    (split : header.front ++ (header.head ++ header.init.map InitToken.text) = texts ++ others)
    (rest : List UInt8) (key : PublicKey) :
    parseHeaderKey (texts.flatten ++ (decoy.text ++ rest)) ≠ .ok key := by
  have bare := Header.single_iff.mp single
  have slash : decoy.text ++ rest = '/'.toUInt8 :: (decoy.text ++ rest).tail := rfl
  rcases List.append_eq_append_iff.mp split with ⟨later, rfl, within⟩ | ⟨later, same, rfl⟩
  · rcases List.append_eq_append_iff.mp within with ⟨started, rfl, inits⟩ | ⟨left, same, rfl⟩
    · -- inside the initializer
      obtain ⟨written, remaining, whole, rfl, rfl⟩ := List.map_eq_append_iff.mp inits
      have read := misread_inside single whole rest key
      simpa only [List.flatten_append, List.append_assoc] using read
    · by_cases opened : left = []
      · -- right behind the opening brace
        have read := @misread_inside header single [] _ rfl rest key
        rw [opened, List.append_nil] at same
        rw [← same]
        simpa only [List.map_nil, List.flatten_nil, List.nil_append, List.flatten_append,
          List.append_assoc] using read
      · -- inside the head
        rw [same, List.flatten_append, List.append_assoc] at bare
        have front := noneIn_change stops_slash bare (by simp) (decoy.text ++ rest).tail
        have head := noneIn_unopened stops_slash (Header.unopened same opened)
          (decoy.text ++ rest).tail
        refine misread_in_front rest ?_ key
        rw [List.flatten_append, slash]
        exact Matching.noneIn_append.mpr ⟨front, head⟩
  · -- in front of the declaration
    refine misread_in_front rest ?_ key
    rw [same, List.flatten_append, Matching.noneIn_append] at bare
    rw [slash]
    exact @noneIn_change _ stops_slash _ [] _ bare.1 (by simp) _

/-! ## Where comments do no harm -/

theorem tokens_or_comment (pieces : List Piece) :
    (∃ texts : List (List UInt8), pieces = texts.map .token) ∨
      ∃ (texts : List (List UInt8)) (note : Comment) (rest : List Piece),
        pieces = texts.map .token ++ .comment note :: rest := by
  induction pieces with
  | nil => exact .inl ⟨[], rfl⟩
  | cons piece pieces ih =>
    cases piece with
    | token text =>
      rcases ih with ⟨texts, rfl⟩ | ⟨texts, note, rest, rfl⟩
      · exact .inl ⟨text :: texts, rfl⟩
      · exact .inr ⟨text :: texts, note, rest, rfl⟩
    | comment note => exact .inr ⟨[], note, pieces, rfl⟩

theorem of_places_map {texts : List (List UInt8)} {pieces : List Piece}
    (same : places pieces = texts.map some) : pieces = texts.map .token := by
  induction pieces generalizing texts with
  | nil =>
    obtain rfl := List.map_eq_nil_iff.mp same.symm
    rfl
  | cons piece pieces ih =>
    obtain ⟨text, others, rfl, here, later⟩ := List.map_eq_cons_iff.mp same.symm
    cases piece with
    | token written =>
      obtain rfl := Option.some.inj here
      exact congrArg _ (ih later.symm)
    | comment note => exact absurd here nofun

namespace Header

variable {header : Header} {pieces : List Piece}

/-- Comments behind the closing brace are the only ones that may say anything. -/
theorem behind_iff (single : header.Single)
    (same : tokens pieces = header.declared ++ header.back) :
    (∀ others, places others = places pieces →
      parseHeaderKey (spell others) = parseHeaderKey header.text) ↔ header.Behind pieces := by
  rw [parse_text single]
  constructor
  · intro unchanged
    rcases tokens_or_comment pieces with ⟨texts, rfl⟩ | ⟨texts, note, rest, rfl⟩
    · rw [tokens_map] at same
      exact ⟨header.back.map .token, by rw [same, List.map_append]⟩
    have split : texts ++ tokens rest = header.declared ++ header.back := by
      rw [← same, tokens_append, tokens_map]
      rfl
    rcases List.append_eq_append_iff.mp split with ⟨left, whole, -⟩ | ⟨later, rfl, -⟩
    · by_cases closed : left = []
      · rw [closed, List.append_nil] at whole
        exact ⟨_, by rw [whole]⟩
      have cut := congrArg List.dropLast whole
      rw [List.dropLast_append_of_ne_nil closed, declared, List.dropLast_concat,
        List.append_assoc] at cut
      have shown : places (texts.map .token ++ .comment decoy :: rest) =
          places (texts.map .token ++ .comment note :: rest) := by
        simp only [places, List.map_append, List.map_cons]
        rfl
      have read := unchanged _ shown
      rw [spell_append, spell_map] at read
      exact absurd read (misread single cut (spell rest) header.key)
    · exact ⟨later.map .token ++ .comment note :: rest, by rw [List.map_append, List.append_assoc]⟩
  · rintro ⟨back, rfl⟩ others shown
    rw [places, places, List.map_append, List.map_eq_append_iff] at shown
    obtain ⟨front, behind, rfl, written, -⟩ := shown
    have live : front = header.declared.map .token := by
      refine of_places_map (written.trans ?_)
      rw [List.map_map]
      rfl
    rw [spell_append, live, spell_map]
    exact parse_behind single _

end Header

/-! ## What the signer writes -/

theorem mark_space : isMark ' '.toUInt8 = true := by decide

theorem mark_newline : isMark '\n'.toUInt8 = true := by decide

theorem mark_comma : isMark ','.toUInt8 = true := by decide

theorem noneIn_headerKey {front : List UInt8} (plain : 'k'.toUInt8 ∉ front) (rest : List UInt8) :
    Matching.NoneIn headerKey front rest := by
  refine noneIn_of_opener (fun letter text found => ?_) plain rest
  obtain ⟨body, read⟩ := Option.ne_none_iff_exists'.mp found
  obtain ⟨inside, opened, -⟩ := Option.bind_eq_some_iff.mp read
  obtain ⟨before, after, -, -, same⟩ := openedKey_eq_some.mp opened
  exact (List.cons.inj same).1

def hexHigh (c : UInt8) : UInt8 := (ascii "0123456789abcdef").getD (c >>> 4).toNat 0

def hexLow (c : UInt8) : UInt8 := (ascii "0123456789abcdef").getD (c &&& 0x0F).toNat 0

theorem hex_digits (c : UInt8) :
    (nibble (hexHigh c)).isSome ∧ (nibble (hexLow c)).isSome := by
  refine @forall_byte (fun c => (nibble (hexHigh c)).isSome ∧ (nibble (hexLow c)).isSome) ?_ c
  decide +kernel

def byteToken (c : UInt8) : InitToken := .literal (hexHigh c) (hexLow c) (hex_digits c)

theorem byteToken_text (c : UInt8) : (byteToken c).text = ascii "0x" ++ toHex [c] := rfl

theorem byteToken_byte (c : UInt8) : (byteToken c).byte? = some c := by
  refine @forall_byte (fun c => (byteToken c).byte? = some c) ?_ c
  decide +kernel

/-- One byte of the body, at its place. -/
def cArrayTokens (size : Nat) (c : UInt8) (i : Nat) : List InitToken :=
  (if i % 12 = 0 then List.replicate 4 (.mark _ mark_space) else []) ++
    [byteToken c, .mark _ mark_comma,
      if i % 12 = 11 ∨ i = size - 1 then .mark _ mark_newline else .mark _ mark_space]

theorem cArrayTokens_text (size : Nat) (c : UInt8) (i : Nat) :
    ((cArrayTokens size c i).map InitToken.text).flatten =
      (if i % 12 = 0 then ascii "    " else []) ++ ascii "0x" ++ toHex [c] ++ ascii "," ++
        if i % 12 = 11 ∨ i = size - 1 then ascii "\n" else ascii " " := by
  have indent : ((List.replicate 4 (InitToken.mark _ mark_space)).map InitToken.text).flatten =
      ascii "    " := by decide
  rw [cArrayTokens, List.map_append, List.flatten_append]
  simp only [List.map_cons, List.map_nil, List.flatten_cons, List.flatten_nil, byteToken_text,
    List.append_nil, List.append_assoc]
  congr 1
  · split
    · exact indent
    · rfl
  · congr 3
    split <;> rfl

theorem cArrayTokens_bytes (size : Nat) (c : UInt8) (i : Nat) :
    (cArrayTokens size c i).filterMap InitToken.byte? = [c] := by
  rw [cArrayTokens, List.filterMap_append, List.filterMap_cons_some (byteToken_byte c)]
  split <;> split <;> rfl

theorem cArray_tokens (size : Nat) (pairs : List (UInt8 × Nat)) :
    ((pairs.flatMap fun (c, i) => cArrayTokens size c i).map InitToken.text).flatten =
        (pairs.flatMap fun (c, i) =>
          (if i % 12 = 0 then ascii "    " else []) ++ ascii "0x" ++ toHex [c] ++ ascii "," ++
            if i % 12 = 11 ∨ i = size - 1 then ascii "\n" else ascii " ") ∧
      (pairs.flatMap fun (c, i) => cArrayTokens size c i).filterMap InitToken.byte? =
        pairs.map Prod.fst := by
  induction pairs with
  | nil => exact ⟨rfl, rfl⟩
  | cons pair pairs ih =>
    obtain ⟨c, i⟩ := pair
    simp only [List.flatMap_cons, List.map_append, List.flatten_append, List.filterMap_append,
      cArrayTokens_text, cArrayTokens_bytes, ih, List.map_cons, List.cons_append, List.nil_append,
      and_self]

def keygenInit (pub : PublicKey) : List InitToken :=
  .mark _ mark_newline :: pub.toList.zipIdx.flatMap fun (c, i) =>
    cArrayTokens pub.toList.length c i

theorem keygenInit_bytes (pub : PublicKey) :
    (keygenInit pub).filterMap InitToken.byte? = pub.toList := by
  rw [keygenInit, List.filterMap_cons_none rfl, (cArray_tokens _ _).2, List.zipIdx_map_fst]

theorem keygenInit_counted (pub : PublicKey) :
    ((keygenInit pub).filterMap InitToken.byte?).length = 32 := by
  rw [keygenInit_bytes, Vector.length_toList]

/-- The header that the key is pasted into. -/
def keygenHeader (pub : PublicKey) : Header where
  front := [ascii "static const uint8_t "]
  before := ascii " "
  after := ascii " "
  init := keygenInit pub
  back := [ascii ";\n"]
  beforeSpaces := space_spaces
  afterSpaces := space_spaces
  counted := keygenInit_counted pub

theorem keygenHeader_text (pub : PublicKey) : (keygenHeader pub).text = keygenText pub.toList := by
  have body : ((keygenInit pub).map InitToken.text).flatten = ascii "\n" ++ cArray pub.toList := by
    rw [keygenInit, List.map_cons, List.flatten_cons, (cArray_tokens _ _).1]
    rfl
  have lead : ascii "static const uint8_t " ++ (opening (ascii " ") (ascii " ") ++ ascii "\n") =
      ascii "static const uint8_t kOtaReleasePublicKey[32] = \x7b\n" := by decide +kernel
  have trail : closeBrace :: ascii ";\n" = ascii "\x7d;\n" := by decide
  rw [Header.text, List.flatten_append, Header.flatten_declared, Header.flatten_head, keygenText,
    ← lead, ← trail]
  simp only [keygenHeader, body, List.flatten_singleton, List.append_assoc]

theorem keygenHeader_key (pub : PublicKey) : (keygenHeader pub).key = pub := by
  refine Vector.toList_inj.mp ?_
  exact keygenInit_bytes pub

theorem keygenHeader_single (pub : PublicKey) : (keygenHeader pub).Single :=
  noneIn_headerKey (show 'k'.toUInt8 ∉ [ascii "static const uint8_t "].flatten by decide) _

/-- What is pasted is read back. -/
theorem parseHeaderKey_keygenText (pub : PublicKey) :
    parseHeaderKey (keygenText pub.toList) = .ok pub := by
  rw [← keygenHeader_text, Header.parse_text (keygenHeader_single pub), keygenHeader_key]

/-! ## The older key -/

def olderKey : PublicKey := .replicate 32 1

def newerKey : PublicKey := .replicate 32 2

theorem older_ends : Search.index (ascii "*/") (keygenText olderKey.toList ++ ascii "*/") =
    some (keygenText olderKey.toList).length := by
  decide +kernel

/-- A rotated key, with the older one left in a comment in front of it. -/
def rotated : List Piece :=
  .comment (.block (keygenText olderKey.toList) older_ends) ::
    ((keygenHeader newerKey).declared ++ (keygenHeader newerKey).back).map .token

theorem rotated_key_misread :
    (keygenHeader newerKey).Single ∧
      tokens rotated = (keygenHeader newerKey).declared ++ (keygenHeader newerKey).back ∧
      parseHeaderKey (keygenHeader newerKey).text = .ok newerKey ∧
      parseHeaderKey (spell rotated) = .ok olderKey ∧ olderKey ≠ newerKey := by
  refine ⟨keygenHeader_single _, Header.tokens_map _, ?_, by decide +kernel, by decide +kernel⟩
  decide +kernel

/-- When comments leave the key that is read alone. -/
theorem header_key_comments (header : Header) (pieces : List Piece) (single : header.Single)
    (same : tokens pieces = header.declared ++ header.back) :
    parseHeaderKey header.text = .ok header.key ∧
    ((∀ others, places others = places pieces →
      parseHeaderKey (spell others) = parseHeaderKey header.text) ↔ header.Behind pieces) ∧
    (∀ front init back, header.Clean pieces front init back →
      parseHeaderKey (spell pieces) = parseHeaderKey header.text) ∧
    ∀ pub : PublicKey, parseHeaderKey (keygenText pub.toList) = .ok pub := by
  refine ⟨Header.parse_text single, Header.behind_iff single same,
    fun front init back clean => ?_, parseHeaderKey_keygenText⟩
  rw [Header.parse_text single]
  exact Header.parse_clean clean

theorem header_key_comments_sample :
    ¬ ∀ others, places others = places rotated →
      parseHeaderKey (spell others) = parseHeaderKey (keygenHeader newerKey).text := by
  intro unchanged
  obtain ⟨back, same⟩ := (header_key_comments (keygenHeader newerKey) rotated
    (keygenHeader_single _) (Header.tokens_map _)).2.1.mp unchanged
  exact absurd (List.cons.inj same).1 nofun

end Presence.Ota
