import Mathlib.Data.List.DropRight
import Presence.Firmware.HttpRequest

namespace Presence.Firmware

open Presence.Data Presence.Data.Reading

/-! # Requests that are accepted

The parser followed through its buffer, piece by piece: nothing is read beyond the end,
and what it accepts is a request line, lines of headers and the body they declare.
-/

def crlf : List UInt8 := ['\r'.toUInt8, '\n'.toUInt8]

/-- The value of a header, if it is the one of that name. -/
def headerValue (name line : List UInt8) : Option (List UInt8) :=
  if (line.takeWhile (· != ':'.toUInt8)).map lower = name then
    some ((((line.dropWhile (· != ':'.toUInt8)).drop 1).dropWhile isBlank).rdropWhile isBlank)
  else none

def decimalValue (text : List UInt8) : Nat :=
  text.foldl (fun value c => value * 10 + (c - '0'.toUInt8).toNat) 0

/-- No Content-Length, or one, and that a number. -/
def DeclaresLength (lines : List (List UInt8)) (length : Nat) : Prop :=
  (lines.filterMap (headerValue (ascii "content-length")) = [] ∧ length = 0) ∨
    ∃ text, lines.filterMap (headerValue (ascii "content-length")) = [text] ∧ text ≠ [] ∧
      (∀ c ∈ text, '0'.toUInt8 ≤ c ∧ c ≤ '9'.toUInt8) ∧ length = decimalValue text

structure IsRequestLine (first method path : List UInt8) : Prop where
  shape : ∃ query minor, first = method ++ ' '.toUInt8 ::
    ((path ++ query) ++ ' '.toUInt8 :: (ascii "HTTP/1." ++ [minor])) ∧
      ∀ c ∈ query.head?, endsPath c = true
  methodBytes : ∀ c ∈ method, isMethodByte c = true
  methodLength : 0 < method.length ∧ method.length ≤ 8
  pathBytes : ∀ c ∈ path, isTargetByte c = true ∧ endsPath c = false
  rooted : path.head? = some '/'.toUInt8

/-- A request with what was read from it. -/
def Accepted (buf : List UInt8) (request : HttpRequest) : Prop :=
  ∃ first lines rest, buf = first ++ crlf ++ lines.flatMap (· ++ crlf) ++ crlf ++ (request.body ++ rest) ∧
    (∀ line ∈ first :: lines, '\r'.toUInt8 ∉ line) ∧ IsRequestLine first request.method request.path ∧
    DeclaresLength lines request.body.length ∧ request.body.length ≤ kPortalMaxBody

/-! ## The end of the head -/

variable {buf : List UInt8}

theorem forall₂_beq {mid text : List UInt8}
    (equal : List.Forall₂ (fun c expected => (c == expected) = true) mid text) : mid = text := by
  have same : List.Forall₂ Eq mid text := equal.imp fun _ _ => eq_of_beq
  exact List.forall₂_eq_eq_eq ▸ same

/-- The empty line after the head. -/
def HeadEnds (buf : List UInt8) (headEnd : Nat) : Prop :=
  ∃ front rest, buf = front ++ (crlf ++ (crlf ++ rest)) ∧ front.length = headEnd

theorem exists_agrees {i : Nat} (inside : i + 3 < buf.length) :
    ∃ found, (agrees (· == ·) i (ascii "\r\n\r\n") : Parsing Bool) buf = some (.ok found) ∧
      (found = true → HeadEnds buf i) := by
  obtain ⟨before, mid, after, shape, index, length⟩ := @exists_window _ buf i 4 (by omega)
  have meets : (agrees (· == ·) i (ascii "\r\n\r\n") : Parsing Bool).Meets buf (fun _ => False)
      fun found => found = true → HeadEnds buf i := by
    refine meets_agrees shape index length fun found iff holds => ?_
    have same := forall₂_beq (iff.mp holds)
    subst same
    exact ⟨before, after, shape, index⟩
  obtain ⟨_, _, stops⟩ | returns := meets.outcome
  · exact stops.elim
  · exact returns

theorem exists_findHeadEnd (buf : List UInt8) (turns i : Nat) :
    ∃ found, findHeadEnd buf.length turns i buf = some (.ok found) ∧
      ∀ headEnd ∈ found, HeadEnds buf headEnd ∧ headEnd < i + turns := by
  induction turns generalizing i with
  | zero => exact ⟨none, rfl, by simp⟩
  | succ turns ih =>
      rw [findHeadEnd]
      split
      next inside =>
        obtain ⟨found, read, ends⟩ := exists_agrees inside
        rw [bind_of_ok read]
        cases found with
        | true => exact ⟨some i, rfl, by simpa using ends⟩
        | false =>
            obtain ⟨found, read, holds⟩ := ih (i + 1)
            refine ⟨found, read, fun headEnd member => ?_⟩
            obtain ⟨ends, bound⟩ := holds headEnd member
            exact ⟨ends, by omega⟩
      next => exact ⟨none, rfl, by simp⟩

/-- An end once found stays where it is, and none is found later where all the turns
were taken. -/
theorem findHeadEnd_append {turns i : Nat} {found : Option Nat} (more : List UInt8)
    (settled : found ≠ none ∨ i + turns + 2 < buf.length)
    (read : findHeadEnd buf.length turns i buf = some (.ok found)) :
    findHeadEnd (buf ++ more).length turns i (buf ++ more) = some (.ok found) := by
  induction turns generalizing i with
  | zero => exact read
  | succ turns ih =>
      rw [findHeadEnd] at read ⊢
      split at read
      next inside =>
        obtain ⟨here, looked, -⟩ := exists_agrees inside
        have longer : i + 3 < (buf ++ more).length := by
          rw [List.length_append]
          omega
        rw [bind_of_ok looked] at read
        rw [if_pos longer, bind_of_ok (stable_agrees _ _ _ buf more _ looked)]
        cases here with
        | true => exact read
        | false => exact ih (settled.imp_right fun all => by omega) read
      next outside =>
        obtain rfl : found = none := by
          cases read
          rfl
        have all := settled.resolve_left (by simp)
        omega

/-! ## Lines -/

/-- Nothing, or text whose last line is ended. -/
def Ended (text : List UInt8) : Prop := text = [] ∨ ∃ body, text = body ++ crlf

/-- Behind the first CR of such a text there is another byte, and if that is LF the rest is
such a text. -/
theorem ended_after_line {body line back : List UInt8} (clean : '\r'.toUInt8 ∉ line)
    (shape : body ++ crlf = line ++ '\r'.toUInt8 :: back) :
    ∃ c rest, back = c :: rest ∧ (c = '\n'.toUInt8 → Ended rest) := by
  obtain ⟨extra, rfl, later⟩ | ⟨extra, rfl, later⟩ := List.append_eq_append_iff.mp shape
  · cases extra with
    | nil =>
        cases later
        exact ⟨_, [], rfl, fun _ => .inl rfl⟩
    | cons c extra =>
        obtain ⟨rfl, -⟩ := List.cons.inj later
        exact absurd (by simp) clean
  · cases extra with
    | nil =>
        cases later
        exact ⟨_, [], rfl, fun _ => .inl rfl⟩
    | cons c extra =>
        obtain ⟨rfl, rfl⟩ := List.cons.inj later
        cases extra with
        | nil => exact ⟨_, ['\n'.toUInt8], rfl, fun same => absurd same (by decide)⟩
        | cons d extra => exact ⟨d, extra ++ crlf, rfl, fun _ => .inr ⟨extra, rfl⟩⟩

/-! ## The request line -/

/-- Every stop inside the head refuses the request. -/
abbrev Refuses (verdict : HttpParse) : Prop := verdict = .bad ∨ verdict = .tooLarge

section

variable {β : Type} {condition : Prop} [Decidable condition] {next : Unit → Parsing β} {post : β → Prop}

theorem meets_badIf (goes : ¬ condition → (next ()).Meets buf Refuses post) :
    (stopIf .bad condition >>= next).Meets buf Refuses post :=
  Meets.bind (meets_stopIf (fun _ => .inl rfl) goes)

variable {before mid after : List UInt8} {start count : Nat}

/-- Refused unless all of so many bytes pass. -/
theorem meets_badByte {test : UInt8 → Bool} (shape : buf = before ++ (mid ++ after))
    (index : before.length = start) (length : mid.length = count)
    (goes : (∀ c ∈ mid, test c = true) → (next ()).Meets buf Refuses post) :
    (find (!test ·) start count >>= fun other => stopIf .bad other.isSome >>= next).Meets buf Refuses
      post := by
  apply Meets.bind
  refine meets_find shape index length (fun absent => ?_) fun front c back _ _ _ => ?_
  · exact meets_badIf fun _ => goes fun c member => by simpa using absent c member
  · exact meets_badIf fun none => absurd rfl none

theorem meets_memchr {c : UInt8} {found : Option Nat → Prop} (shape : buf = before ++ (mid ++ after))
    (index : before.length = start) (length : mid.length = count) (absent : c ∉ mid → found none)
    (present : ∀ front back, mid = front ++ c :: back → c ∉ front → found (some front.length)) :
    (memchr start c count).Meets buf Refuses found := by
  have outside {text : List UInt8} (none : ∀ d ∈ text, (d == c) = false) : c ∉ text := by
    intro member
    exact absurd (none c member) (by simp)
  refine meets_find shape index length (fun none => absent (outside none)) ?_
  intro front d back split before passes
  obtain rfl : d = c := eq_of_beq passes
  exact present front back split (outside before)

/-- Refused unless the byte is there. -/
theorem meets_upTo {c : UInt8} {next : Nat → Parsing β} (shape : buf = before ++ (mid ++ after))
    (index : before.length = start) (length : mid.length = count)
    (goes : ∀ front back, mid = front ++ c :: back → c ∉ front →
      (next front.length).Meets buf Refuses post) :
    (memchr start c count >>= fun found => orStop .bad found >>= next).Meets buf Refuses post := by
  apply Meets.bind
  refine meets_memchr shape index length (fun _ => Meets.bind (meets_stop (.inl rfl))) ?_
  intro front back split clean
  exact Meets.bind (meets_pure (goes front back split clean))

end

theorem meets_readMethod {line after : List UInt8} (shape : buf = line ++ after) :
    (readMethod line.length).Meets buf Refuses fun methodLen =>
      ∃ method others, line = method ++ ' '.toUInt8 :: others ∧ method.length = methodLen ∧
        (0 < method.length ∧ method.length ≤ 8) ∧ ∀ c ∈ method, isMethodByte c = true := by
  have start : buf = [] ++ (line ++ after) := shape
  refine meets_upTo start rfl rfl fun method others split _ => ?_
  have inside : buf = [] ++ (method ++ (' '.toUInt8 :: others ++ after)) := by
    rw [start, split, List.append_assoc]
  refine meets_badIf fun sized => ?_
  refine meets_badByte inside rfl rfl fun methodBytes => ?_
  exact meets_pure ⟨method, others, split, rfl, by omega, methodBytes⟩

theorem sizeSub_eq {a b difference : Nat} (same : a = b + difference) : sizeSub a b = difference := by
  rw [sizeSub, if_pos (by omega)]
  omega

theorem meets_readTarget {before others after : List UInt8} {lineLen targetStart : Nat}
    (shape : buf = before ++ (others ++ after)) (index : before.length = targetStart)
    (length : lineLen = targetStart + others.length) :
    (readTarget lineLen targetStart).Meets buf Refuses fun targetLen =>
      ∃ target minor, others = target ++ ' '.toUInt8 :: (ascii "HTTP/1." ++ [minor]) ∧
        target.length = targetLen ∧ target.head? = some '/'.toUInt8 ∧
        ∀ c ∈ target, isTargetByte c = true := by
  refine meets_upTo shape index (sizeSub_eq length).symm fun target version split _ => ?_
  refine meets_badIf fun some => ?_
  cases target with
  | nil => exact absurd rfl some
  | cons slash target =>
  have inside : buf = before ++ (slash :: target ++ (' '.toUInt8 :: version ++ after)) := by
    rw [shape, split, List.append_assoc]
  apply Meets.bind
  refine meets_peek inside index ?_
  refine meets_badIf fun rooted => ?_
  refine meets_badIf fun width => ?_
  -- eight bytes are left, of which seven are compared
  have left : lineLen = targetStart + (slash :: target).length + 1 + version.length := by
    rw [length, split]
    simp only [List.length_append, List.length_cons]
    omega
  rw [sizeSub_eq left, not_not] at width
  obtain rfl | ⟨major, minor, rfl⟩ := List.eq_nil_or_concat' version
  · cases width
  have compared : buf = (before ++ (slash :: target ++ [' '.toUInt8])) ++ (major ++ (minor :: after)) := by
    rw [inside]
    simp
  apply Meets.bind
  refine meets_slice compared (by simp [index, Nat.add_assoc]) (by simpa using width) ?_
  refine meets_badIf fun version => ?_
  refine meets_badByte inside index rfl fun targetBytes => ?_
  rw [not_not] at rooted version
  exact meets_pure ⟨slash :: target, minor, by rw [split, version], rfl, by rw [rooted]; rfl, targetBytes⟩

theorem meets_readPath {before target after : List UInt8} {targetStart : Nat}
    (shape : buf = before ++ (target ++ after)) (index : before.length = targetStart) :
    (readPath targetStart target.length).Meets buf Refuses fun pathLen =>
      ∃ path query, target = path ++ query ∧ path.length = pathLen ∧
        (∀ c ∈ path, endsPath c = false) ∧ ∀ c ∈ query.head?, endsPath c = true := by
  apply Meets.bind
  refine meets_find shape index rfl (fun absent => ?_) fun path c query split before passes => ?_
  · exact meets_pure ⟨target, [], by simp, rfl, absent, by simp⟩
  · exact meets_pure ⟨path, c :: query, split, rfl, before, by simpa using passes⟩


/-- The first line, and what lies between it and the empty line. -/
theorem meets_requestLine {front rest : List UInt8} (shape : buf = front ++ (crlf ++ (crlf ++ rest))) :
    (requestLine front.length).Meets buf Refuses fun line =>
      ∃ first text method path others, front ++ crlf = first ++ (crlf ++ text) ∧ '\r'.toUInt8 ∉ first ∧
        Ended text ∧ line.lineLen = first.length ∧ IsRequestLine first method path ∧
        first = method ++ ' '.toUInt8 :: (path ++ others) ∧ line.methodLen = method.length ∧
        line.targetStart = method.length + 1 ∧ line.pathLen = path.length := by
  have start : buf = [] ++ ((front ++ ['\r'.toUInt8]) ++ ('\n'.toUInt8 :: (crlf ++ rest))) := by
    rw [shape]
    simp [crlf]
  apply Meets.bind
  refine meets_memchr start rfl (by simp) (fun absent => absurd (by simp) absent) ?_
  intro first back split clean
  have whole : front ++ crlf = first ++ '\r'.toUInt8 :: (back ++ ['\n'.toUInt8]) := by
    have both := congrArg (· ++ ['\n'.toUInt8]) split
    simpa [crlf] using both
  obtain ⟨c, text, behind, ended⟩ := ended_after_line clean whole
  have inside : buf = first ++ ('\r'.toUInt8 :: c :: (text ++ (crlf ++ rest))) := by
    rw [shape, ← List.append_assoc, whole, behind]
    simp
  apply Meets.bind
  apply meets_pure
  apply Meets.bind
  refine meets_peek (inside.trans (List.append_cons _ _ _)) (by simp) ?_
  refine meets_badIf fun isLf => ?_
  obtain rfl : c = '\n'.toUInt8 := not_not.mp isLf
  apply Meets.bind
  refine (meets_readMethod inside).mono ?_
  rintro methodLen ⟨method, others, rfl, rfl, methodLength, methodBytes⟩
  have behindMethod : buf = (method ++ [' '.toUInt8]) ++
      (others ++ ('\r'.toUInt8 :: '\n'.toUInt8 :: (text ++ (crlf ++ rest)))) := by
    rw [inside]
    simp
  apply Meets.bind
  refine (meets_readTarget behindMethod (by simp) (by simp; omega)).mono ?_
  rintro targetLen ⟨target, minor, rfl, rfl, rooted, targetBytes⟩
  have aroundTarget : buf = (method ++ [' '.toUInt8]) ++ (target ++
      (' '.toUInt8 :: (ascii "HTTP/1." ++ [minor]) ++
        '\r'.toUInt8 :: '\n'.toUInt8 :: (text ++ (crlf ++ rest)))) := by
    rw [behindMethod]
    simp
  apply Meets.bind
  refine (meets_readPath aroundTarget (by simp)).mono ?_
  rintro pathLen ⟨path, query, rfl, rfl, pathBytes, queryStarts⟩
  refine meets_pure ⟨_, text, method, path, query ++ ' '.toUInt8 :: (ascii "HTTP/1." ++ [minor]), ?_, clean,
    ended rfl, rfl, ⟨⟨query, minor, rfl, queryStarts⟩, methodBytes, methodLength, ?_, ?_⟩, ?_, rfl, rfl, rfl⟩
  · rw [whole, behind]
    rfl
  · exact fun c member => ⟨targetBytes c (List.mem_append_left _ member), pathBytes c member⟩
  · cases path with
    | cons c path => exact rooted
    | nil =>
        -- the slash would start a query
        have starts := queryStarts '/'.toUInt8 rooted
        exact absurd starts (by decide)
  · rw [List.append_assoc]


/-! ## One header -/

theorem meets_skipBlanks {before value after : List UInt8} {v : Nat}
    (shape : buf = before ++ (value ++ after)) (index : before.length = v) :
    (skipBlanks v (v + value.length)).Meets buf Refuses fun w =>
      ∃ blanks, value = blanks ++ value.dropWhile isBlank ∧ w = v + blanks.length := by
  have count : v + value.length - v = value.length := Nat.add_sub_cancel_left v _
  rw [skipBlanks, count]
  apply Meets.bind
  refine meets_find shape index rfl (fun absent => ?_) fun blanks c text split before passes => ?_
  · have all : value.dropWhile isBlank = [] :=
      List.dropWhile_eq_nil_iff.mpr fun c member => by simpa using absent c member
    exact meets_pure ⟨value, by rw [all, List.append_nil], rfl⟩
  · have blank : ∀ d ∈ blanks, isBlank d = true := fun d member => by simpa using before d member
    have dropped : value.dropWhile isBlank = c :: text := by
      rw [split, List.dropWhile_append_of_pos blank, List.dropWhile_cons_of_neg (by simpa using passes)]
    exact meets_pure ⟨blanks, by rw [dropped, split], rfl⟩

theorem meets_trimBlanks {before text after : List UInt8} {v : Nat}
    (shape : buf = before ++ (text ++ after)) (index : before.length = v) :
    (trimBlanks v (v + text.length)).Meets buf Refuses fun vEnd =>
      vEnd = v + (text.rdropWhile isBlank).length := by
  induction text using List.reverseRecOn generalizing after with
  | nil =>
      cases v with
      | zero => exact meets_pure rfl
      | succ v =>
          rw [List.length_nil, Nat.add_zero, trimBlanks, if_neg (Nat.lt_irrefl _)]
          exact meets_pure rfl
  | append_singleton text c ih =>
      have last : v + (text ++ [c]).length = v + text.length + 1 := by
        rw [List.length_append, List.length_singleton, Nat.add_assoc]
      have inside : buf = before ++ (text ++ c :: after) := by
        rw [shape, List.append_assoc, List.singleton_append]
      rw [last, trimBlanks, if_pos (by omega)]
      apply Meets.bind
      refine meets_peek (inside.trans (List.append_assoc before text _).symm) (by simp [index]) ?_
      split
      next blank =>
        rw [List.rdropWhile_concat_pos _ _ _ blank]
        exact ih inside
      next other =>
        rw [List.rdropWhile_concat_neg _ _ _ other]
        exact meets_pure last.symm

theorem meets_readLength {before text after : List UInt8} {i contentLength : Nat}
    (shape : buf = before ++ (text ++ after)) (index : before.length = i)
    (small : contentLength ≤ kPortalMaxBody) :
    (readLength i text.length contentLength).Meets buf Refuses fun length =>
      (∀ c ∈ text, '0'.toUInt8 ≤ c ∧ c ≤ '9'.toUInt8) ∧ length ≤ kPortalMaxBody ∧
        length = text.foldl (fun value c => value * 10 + (c - '0'.toUInt8).toNat) contentLength := by
  induction text generalizing before i contentLength with
  | nil => exact meets_pure ⟨by simp, small, rfl⟩
  | cons c text ih =>
      apply Meets.bind
      refine meets_peek shape index ?_
      refine meets_badIf fun digit => ?_
      rw [not_or, UInt8.not_lt, UInt8.not_lt] at digit
      apply Meets.bind
      refine meets_stopIf (fun _ => .inr rfl) fun fits => ?_
      refine (ih (shape.trans (List.append_cons _ _ _)) (by simp [index]) (Nat.not_lt.mp fits)).mono ?_
      rintro length ⟨digits, bounded, same⟩
      exact ⟨List.forall_mem_cons.mpr ⟨digit, digits⟩, bounded, same⟩

theorem meets_asciiIEquals {before name after b : List UInt8} {start : Nat}
    (shape : buf = before ++ (name ++ after)) (index : before.length = start) (folded : b.map lower = b) :
    (asciiIEquals start name.length b).Meets buf Refuses fun equal =>
      (equal = true ↔ name.map lower = b) := by
  unfold asciiIEquals
  split
  next different =>
    refine meets_pure ⟨fun impossible => Bool.noConfusion impossible, fun same => ?_⟩
    rw [← same, List.length_map] at different
    exact absurd rfl different
  next equal =>
    refine meets_agrees shape index (not_not.mp equal).symm fun found iff => ?_
    have pairs : List.Forall₂ (fun x y => (lower x == lower y) = true) name b ↔
        name.map lower = b.map lower := by
      simp only [beq_iff_eq]
      rw [← List.forall₂_eq_eq_eq, List.forall₂_map_left_iff, List.forall₂_map_right_iff]
    rw [iff, pairs, folded]


theorem headerValue_split {name wanted value : List UInt8} (clean : ':'.toUInt8 ∉ name) :
    headerValue wanted (name ++ ':'.toUInt8 :: value) =
      if name.map lower = wanted then some ((value.dropWhile isBlank).rdropWhile isBlank) else none := by
  have inside : ∀ c ∈ name, (c != ':'.toUInt8) = true := by
    intro c member
    simpa using fun same : c = ':'.toUInt8 => clean (same ▸ member)
  have colon : ¬ (':'.toUInt8 != ':'.toUInt8) = true := by decide
  rw [headerValue, List.takeWhile_append_of_pos inside,
    List.takeWhile_cons_of_neg (p := (· != ':'.toUInt8)) colon,
    List.dropWhile_append_of_pos inside, List.dropWhile_cons_of_neg (p := (· != ':'.toUInt8)) colon,
    List.append_nil, List.drop_one, List.tail_cons]

/-- Before any Content-Length the length is 0. -/
structure Declared.Valid (declared : Declared) : Prop where
  unset : declared.haveLength = false → declared.contentLength = 0
  small : declared.contentLength ≤ kPortalMaxBody

def DeclaredBy (text : List UInt8) (length : Nat) : Prop :=
  text ≠ [] ∧ (∀ c ∈ text, '0'.toUInt8 ≤ c ∧ c ≤ '9'.toUInt8) ∧ length = decimalValue text

/-- What a line changes. -/
def Declared.Takes (declared : Declared) (line : List UInt8) (next : Declared) : Prop :=
  match headerValue (ascii "content-length") line with
  | none => next = declared
  | some text => declared.haveLength = false ∧ next.haveLength = true ∧ DeclaredBy text next.contentLength

theorem meets_valueBounds {before value after : List UInt8} {start : Nat}
    (shape : buf = before ++ (value ++ after)) (index : before.length = start) :
    (valueBounds start (start + value.length)).Meets buf Refuses fun (v, vEnd) =>
      ∃ blanks number trailing, value = blanks ++ (number ++ trailing) ∧
        number = (value.dropWhile isBlank).rdropWhile isBlank ∧
        v = start + blanks.length ∧ vEnd = v + number.length := by
  apply Meets.bind
  refine (meets_skipBlanks shape index).mono ?_
  rintro v ⟨blanks, around, rfl⟩
  obtain ⟨trailing, kept⟩ := List.rdropWhile_prefix isBlank (l := value.dropWhile isBlank)
  have inText : buf = (before ++ blanks) ++ (value.dropWhile isBlank ++ after) := by
    rw [shape, List.append_assoc, ← List.append_assoc blanks, ← around]
  have textEnd : start + value.length = start + blanks.length + (value.dropWhile isBlank).length := by
    rw [Nat.add_assoc, ← List.length_append, ← around]
  rw [textEnd]
  apply Meets.bind
  refine (meets_trimBlanks inText (by simp [index])).mono ?_
  rintro vEnd rfl
  exact meets_pure ⟨blanks, _, trailing, by rw [kept, ← around], rfl, rfl, rfl⟩

theorem meets_header {before line after : List UInt8} {p : Nat} {declared : Declared}
    (shape : buf = before ++ (line ++ after)) (index : before.length = p) (valid : declared.Valid) :
    (header p (p + line.length) declared).Meets buf Refuses fun next =>
      next.Valid ∧ declared.Takes line next := by
  have count : sizeSub (p + line.length) p = line.length := sizeSub_eq rfl
  rw [header, count]
  refine meets_upTo shape index rfl fun name value split clean => ?_
  have inName : buf = before ++ (name ++ (':'.toUInt8 :: value ++ after)) := by
    rw [shape, split, List.append_assoc]
  have inValue : buf = (before ++ (name ++ [':'.toUInt8])) ++ (value ++ after) := by
    rw [inName]
    simp
  have lineEnd : p + line.length = p + name.length + 1 + value.length := by
    rw [split]
    simp only [List.length_append, List.length_cons]
    omega
  refine meets_badIf fun _ => ?_
  rw [lineEnd]
  apply Meets.bind
  refine (meets_valueBounds inValue (by simp [index, Nat.add_assoc])).mono ?_
  rintro ⟨v, vEnd⟩ ⟨blanks, number, trailing, around, stripped, rfl, rfl⟩
  apply Meets.bind
  refine (meets_asciiIEquals inName index (by decide)).mono fun chunked _ => ?_
  refine meets_badIf fun _ => ?_
  apply Meets.bind
  refine (meets_asciiIEquals inName index (by decide)).mono fun isLength named => ?_
  have value_eq := @headerValue_split name (ascii "content-length") value clean
  rw [← split, ← stripped] at value_eq
  split
  next isLength =>
    rw [if_pos (named.mp isLength)] at value_eq
    refine meets_badIf fun once => ?_
    rw [not_or] at once
    have first : declared.haveLength = false := by simpa using once.1
    have some : number ≠ [] := by
      intro empty
      rw [empty] at once
      exact once.2 rfl
    have inNumber : buf = (before ++ (name ++ ':'.toUInt8 :: blanks)) ++ (number ++ (trailing ++ after)) := by
      rw [inValue, around]
      simp
    have start : (before ++ (name ++ ':'.toUInt8 :: blanks)).length =
        p + name.length + 1 + blanks.length := by
      simp only [List.length_append, List.length_cons]
      omega
    rw [valid.unset first, Nat.add_sub_cancel_left]
    apply Meets.bind
    refine (meets_readLength inNumber start (Nat.zero_le _)).mono ?_
    rintro length ⟨digits, small, same⟩
    refine meets_pure ⟨⟨fun unset => Bool.noConfusion unset, small⟩, ?_⟩
    rw [Declared.Takes, value_eq]
    exact ⟨first, rfl, some, digits, same⟩
  next other =>
    rw [if_neg fun same => other (named.mpr same)] at value_eq
    refine meets_pure ⟨valid, ?_⟩
    rw [Declared.Takes, value_eq]

/-! ## All of them -/

/-- From what was declared before the lines to what is declared by them. -/
def Declared.TakesAll (declared : Declared) (lines : List (List UInt8)) (final : Declared) : Prop :=
  (lines.filterMap (headerValue (ascii "content-length")) = [] ∧ final = declared) ∨
    ∃ text, lines.filterMap (headerValue (ascii "content-length")) = [text] ∧
      declared.haveLength = false ∧ final.haveLength = true ∧ DeclaredBy text final.contentLength

/-- A second Content-Length is refused, so one line and the lines behind it declare at most
one. -/
theorem Declared.Takes.cons {declared next final : Declared} {line : List UInt8}
    {lines : List (List UInt8)} (takes : declared.Takes line next) (others : next.TakesAll lines final) :
    declared.TakesAll (line :: lines) final := by
  rw [Declared.Takes] at takes
  rw [Declared.TakesAll]
  cases value : headerValue (ascii "content-length") line with
  | none =>
      rw [value] at takes
      obtain rfl : next = declared := takes
      rw [List.filterMap_cons_none value]
      exact others
  | some text =>
      rw [value] at takes
      obtain ⟨unset, set, number⟩ := takes
      rw [List.filterMap_cons_some value]
      obtain ⟨none, rfl⟩ | ⟨_, _, still, _⟩ := others
      · exact .inr ⟨text, by rw [none], unset, set, number⟩
      · exact absurd (set.symm.trans still) (by decide)

theorem meets_headers {len headEnd turns p : Nat} {before text rest : List UInt8} {declared : Declared}
    (shape : buf = before ++ (text ++ rest)) (index : before.length = p)
    (length : p + text.length = headEnd + 2) (ended : Ended text) (enough : text.length < turns)
    (valid : declared.Valid) :
    (headers len headEnd turns p declared).Meets buf Refuses fun final =>
      ∃ lines, text = lines.flatMap (· ++ crlf) ∧ (∀ line ∈ lines, '\r'.toUInt8 ∉ line) ∧
        final.Valid ∧ declared.TakesAll lines final := by
  induction turns generalizing before text p declared with
  | zero => exact absurd enough (Nat.not_lt_zero _)
  | succ turns ih =>
      rw [headers]
      obtain rfl | ⟨body, rfl⟩ := ended
      · rw [List.length_nil] at length
        rw [if_neg (by omega)]
        exact meets_pure ⟨[], rfl, by simp, valid, .inl ⟨rfl, rfl⟩⟩
      have count : sizeSub (headEnd + 2) p = (body ++ crlf).length := sizeSub_eq length.symm
      have some : p < headEnd + 2 := by
        rw [List.length_append] at length
        change p + (body.length + 2) = _ at length
        omega
      rw [if_pos some, count]
      apply Meets.bind
      refine meets_memchr shape index rfl (fun absent => absurd (by simp [crlf]) absent) ?_
      intro line back split clean
      obtain ⟨c, later, rfl, ended⟩ := ended_after_line clean split
      have inLine : buf = before ++ (line ++ ('\r'.toUInt8 :: c :: (later ++ rest))) := by
        rw [shape, split, List.append_assoc]
        rfl
      have inByte : buf = (before ++ (line ++ ['\r'.toUInt8])) ++ c :: (later ++ rest) := by
        rw [inLine]
        simp
      refine meets_badIf fun _ => ?_
      apply Meets.bind
      refine meets_peek inByte (by simp [index, Nat.add_assoc]) ?_
      refine meets_badIf fun isLf => ?_
      obtain rfl : c = '\n'.toUInt8 := not_not.mp isLf
      apply Meets.bind
      refine (meets_header inLine index valid).mono ?_
      rintro next ⟨nextValid, takes⟩
      have inLater : buf = (before ++ (line ++ crlf)) ++ (later ++ rest) := by
        rw [inLine]
        simp [crlf]
      have consumed : (body ++ crlf).length = line.length + 2 + later.length := by
        rw [split]
        simp only [List.length_append, List.length_cons]
        omega
      refine (ih inLater (by simp [index, crlf, Nat.add_assoc]) ?_ (ended rfl) ?_ nextValid).mono ?_
      · simp only [Option.map_some, Option.getD_some]
        omega
      · omega
      · rintro final ⟨lines, all, noCr, finalValid, takesAll⟩
        refine ⟨line :: lines, ?_, List.forall_mem_cons.mpr ⟨clean, noCr⟩, finalValid, takes.cons takesAll⟩
        rw [split, List.flatMap_cons, ← all, List.append_assoc]
        rfl

/-! ## The request -/

theorem declaresLength {lines : List (List UInt8)} {final : Declared}
    (takesAll : Declared.TakesAll ⟨false, 0⟩ lines final) : DeclaresLength lines final.contentLength := by
  obtain ⟨none, rfl⟩ | ⟨text, one, -, -, number⟩ := takesAll
  · exact .inl ⟨none, rfl⟩
  · exact .inr ⟨text, one, number⟩

theorem meets_readContent {front rest method path others : List UInt8} {line : RequestLine} {length : Nat}
    (shape : buf = front ++ (crlf ++ (crlf ++ rest))) (bound : front.length ≤ kPortalMaxHead)
    (inMethod : buf = [] ++ (method ++ (' '.toUInt8 :: (path ++ others))))
    (methodLen : line.methodLen = method.length) (targetStart : line.targetStart = method.length + 1)
    (pathLen : line.pathLen = path.length) (small : length ≤ kPortalMaxBody) :
    (readContent buf.length front.length line length).Meets buf
      (fun verdict => verdict = .incomplete ∧ buf.length < kPortalMaxHead + 4 + kPortalMaxBody)
      fun request => request.method = method ∧ request.path = path ∧ request.body.length = length ∧
        ∃ after, rest = request.body ++ after := by
  have total : buf.length = front.length + 4 + rest.length := by
    rw [shape]
    simp only [List.length_append, crlf, List.length_cons, List.length_nil]
    omega
  have inPath : buf = (method ++ [' '.toUInt8]) ++ (path ++ others) := by
    rw [inMethod]
    simp
  have inBody : buf = (front ++ (crlf ++ crlf)) ++ (rest.take length ++ rest.drop length) := by
    rw [shape, List.take_append_drop]
    simp
  unfold readContent
  dsimp only
  rw [sizeSub_eq total]
  apply Meets.bind
  refine meets_stopIf (fun missing => ⟨rfl, by omega⟩) fun enough => ?_
  have whole : (rest.take length).length = length := by
    rw [List.length_take]
    omega
  apply Meets.bind
  refine meets_slice inMethod rfl methodLen.symm ?_
  apply Meets.bind
  refine meets_slice inPath (by simp [targetStart]) pathLen.symm ?_
  apply Meets.bind
  refine meets_slice inBody (by simp [crlf]) whole ?_
  exact meets_pure ⟨rfl, rfl, whole, rest.drop length, (List.take_append_drop _ _).symm⟩

/-- Refused, or accepted, or short enough to wait for more. -/
theorem meets_readRequest (buf : List UInt8) :
    (readRequest buf.length).Meets buf
      (fun verdict => Refuses verdict ∨
        verdict = .incomplete ∧ buf.length < kPortalMaxHead + 4 + kPortalMaxBody)
      (Accepted buf) := by
  obtain ⟨found, looked, ends⟩ := exists_findHeadEnd buf (kPortalMaxHead + 1) 0
  apply Meets.bind
  refine meets_of_ok looked ?_
  cases found with
  | none =>
      apply meets_stop
      split
      next => exact .inl (.inr rfl)
      next short => exact .inr ⟨rfl, by omega⟩
  | some headEnd =>
      obtain ⟨⟨front, rest, shape, rfl⟩, bound⟩ := ends headEnd rfl
      apply Meets.bind
      refine (meets_requestLine shape).imp (fun _ => .inl) ?_
      rintro line ⟨first, text, method, path, others, head, noCr, ended, lineLen, isLine, split,
        methodLen, targetStart, pathLen⟩
      have inLines : buf = (first ++ crlf) ++ (text ++ (crlf ++ rest)) := by
        rw [shape, ← List.append_assoc, head]
        simp
      have headLength : front.length + 2 = first.length + 2 + text.length := by
        have both := congrArg List.length head
        simp only [List.length_append, crlf, List.length_cons, List.length_nil] at both
        omega
      apply Meets.bind
      refine (meets_headers inLines (by simp [lineLen, crlf]) (by omega) ended (by omega)
        ⟨fun _ => rfl, Nat.zero_le _⟩).imp (fun _ => .inl) ?_
      rintro declared ⟨lines, rfl, clean, valid, takesAll⟩
      have inMethod : buf = [] ++ (method ++ (' '.toUInt8 :: (path ++ (others ++
          (crlf ++ (lines.flatMap (· ++ crlf) ++ (crlf ++ rest))))))) := by
        rw [inLines, split]
        simp
      refine (meets_readContent shape (by omega) inMethod methodLen targetStart pathLen valid.small).imp
        (fun _ => .inr) ?_
      rintro request ⟨rfl, rfl, whole, after, rfl⟩
      refine ⟨first, lines, after, ?_, List.forall_mem_cons.mpr ⟨noCr, clean⟩, isLine, ?_, ?_⟩
      · rw [inLines]
        simp
      · rw [whole]
        exact declaresLength takesAll
      · rw [whole]
        exact valid.small

end Presence.Firmware
