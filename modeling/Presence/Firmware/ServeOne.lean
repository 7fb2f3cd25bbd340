import Presence.Firmware.HttpAccepted

namespace Presence.Firmware

open Presence.Data Presence.Data.Reading

/-! # The portal reads a request

`serveOne` of `wifi_softap.h` parses all that has arrived after every read.  A verdict
other than "incomplete" is that of every longer text, so it does not matter how the reads
cut the stream.
-/

/-- The loop of `serveOne`.  One entry for each `client.read`, empty where it brings
nothing; the list ends when the client is gone or the time is up. -/
def serveLoop (buf : List UInt8) (req : HttpRequest) :
    List (List UInt8) → Option (HttpParse × HttpRequest)
  | [] => some (.incomplete, req)
  | chunk :: reads =>
      if chunk.isEmpty then serveLoop buf req reads
      else
        match parseHttpRequest (buf ++ chunk) req with
        | none => none
        | some (parsed, req) =>
            if parsed ≠ .incomplete then some (parsed, req) else serveLoop (buf ++ chunk) req reads

def HttpRequest.empty : HttpRequest := ⟨[], [], []⟩

/-- What `serveOne` gives `portal.handle`. -/
def serveOne (reads : List (List UInt8)) : Option (HttpParse × HttpRequest) :=
  serveLoop [] .empty reads

/-! ## What the head says stays -/

variable {buf : List UInt8}

theorem stable_readMethod (lineLen : Nat) : (readMethod lineLen).Stable := by
  refine (stable_find _ _ _).bind fun space => (stable_orStop _ _).bind fun methodLen => ?_
  refine (stable_stopIf _ _).bind fun _ => (stable_find _ _ _).bind fun other => ?_
  exact (stable_stopIf _ _).bind fun _ => stable_pure _

theorem stable_readTarget (lineLen targetStart : Nat) : (readTarget lineLen targetStart).Stable := by
  refine (stable_find _ _ _).bind fun space => (stable_orStop _ _).bind fun targetLen => ?_
  refine (stable_stopIf _ _).bind fun _ => (stable_peek _).bind fun slash => ?_
  refine (stable_stopIf _ _).bind fun _ => (stable_stopIf _ _).bind fun _ => ?_
  refine (stable_slice _ _).bind fun version => (stable_stopIf _ _).bind fun _ => ?_
  exact (stable_find _ _ _).bind fun other => (stable_stopIf _ _).bind fun _ => stable_pure _

theorem stable_requestLine (headEnd : Nat) : (requestLine headEnd).Stable := by
  refine (stable_find _ _ _).bind fun cr => (stable_deref _).bind fun lineLen => ?_
  refine (stable_peek _).bind fun lf => (stable_stopIf _ _).bind fun _ => ?_
  refine (stable_readMethod _).bind fun methodLen => (stable_readTarget _ _).bind fun targetLen => ?_
  exact ((stable_find _ _ _).bind fun found => stable_pure _).bind fun pathLen => stable_pure _

theorem stable_trimBlanks (v vEnd : Nat) : (trimBlanks v vEnd).Stable := by
  induction vEnd with
  | zero => exact stable_pure 0
  | succ vEnd ih =>
      rw [trimBlanks]
      split
      next =>
        refine (stable_peek _).bind fun c => ?_
        split
        next => exact ih
        next => exact stable_pure _
      next => exact stable_pure _

theorem stable_valueBounds (start «end» : Nat) : (valueBounds start «end»).Stable := by
  refine Stable.bind ((stable_find _ _ _).bind fun found => stable_pure _) fun v => ?_
  exact (stable_trimBlanks v «end»).bind fun vEnd => stable_pure _

theorem stable_readLength (i count contentLength : Nat) : (readLength i count contentLength).Stable := by
  induction count generalizing i contentLength with
  | zero => exact stable_pure _
  | succ count ih =>
      refine (stable_peek i).bind fun c => (stable_stopIf _ _).bind fun _ => ?_
      exact (stable_stopIf _ _).bind fun _ => ih _ _

theorem stable_asciiIEquals (start n : Nat) (b : List UInt8) : (asciiIEquals start n b).Stable := by
  unfold asciiIEquals
  split
  next => exact stable_pure false
  next => exact stable_agrees _ _ _

theorem stable_header (p «end» : Nat) (declared : Declared) : (header p «end» declared).Stable := by
  refine (stable_find _ _ _).bind fun colon => (stable_orStop _ _).bind fun nameLen => ?_
  refine (stable_stopIf _ _).bind fun _ => (stable_valueBounds _ _).bind fun bounds => ?_
  refine (stable_asciiIEquals _ _ _).bind fun chunked => (stable_stopIf _ _).bind fun _ => ?_
  refine (stable_asciiIEquals _ _ _).bind fun isLength => ?_
  split
  next =>
    exact (stable_stopIf _ _).bind fun _ => (stable_readLength _ _ _).bind fun contentLength => stable_pure _
  next => exact stable_pure declared

/-- The lines are all inside the head, so the check against `len` never fails. -/
theorem headers_extends {len longer headEnd : Nat} (inside : headEnd + 3 ≤ len) (grown : len ≤ longer)
    (turns p : Nat) (declared : Declared) (more : List UInt8) :
    (headers len headEnd turns p declared).Extends (headers longer headEnd turns p declared) buf
      (buf ++ more) := by
  induction turns generalizing p declared with
  | zero => exact stable_deref none buf more
  | succ turns ih =>
      rw [headers, headers]
      split
      next some =>
        refine (stable_find _ _ _ buf more).bind fun e looked => ?_
        have bound : (e.map (p + ·)).getD headEnd + 1 < headEnd + 3 := by
          cases e with
          | none => simp
          | some k =>
              have before := find_lt looked
              rw [sizeSub, if_pos (Nat.le_of_lt some)] at before
              simp only [Option.map_some, Option.getD_some]
              omega
        have first : ¬ len ≤ (e.map (p + ·)).getD headEnd + 1 := by omega
        have second : ¬ longer ≤ (e.map (p + ·)).getD headEnd + 1 := by omega
        simp only [stopIf, if_neg first, if_neg second]
        refine (stable_pure () buf more).bind fun _ _ => (stable_peek _ buf more).bind fun lf _ => ?_
        refine (stable_stopIf _ _ buf more).bind fun _ _ => ?_
        exact (stable_header _ _ _ buf more).bind fun next _ => ih _ next
      next => exact stable_pure declared buf more

/-! ## Verdicts stay -/

theorem readContent_append {headEnd contentLength : Nat} {line : RequestLine}
    {outcome : Except HttpParse HttpRequest} (more : List UInt8) (inside : headEnd + 4 ≤ buf.length)
    (read : readContent buf.length headEnd line contentLength buf = some outcome)
    (decided : outcome ≠ .error .incomplete) :
    readContent (buf ++ more).length headEnd line contentLength (buf ++ more) = some outcome := by
  have grown : buf.length ≤ (buf ++ more).length := by
    rw [List.length_append]
    exact Nat.le_add_right _ _
  have waits : sizeSub buf.length (headEnd + 4) ≤ sizeSub (buf ++ more).length (headEnd + 4) := by
    rw [sizeSub, sizeSub, if_pos inside, if_pos (Nat.le_trans inside grown)]
    omega
  unfold readContent at read ⊢
  by_cases missing : sizeSub buf.length (headEnd + 4) < contentLength
  · rw [stopIf, if_pos missing] at read
    cases read
    exact absurd rfl decided
  · rw [stopIf, if_neg missing] at read
    rw [stopIf, if_neg (by omega)]
    refine Stable.bind (stable_pure ()) (fun _ => ?_) buf more outcome read
    refine (stable_slice _ _).bind fun method => (stable_slice _ _).bind fun path => ?_
    exact (stable_slice _ _).bind fun body => stable_pure _

theorem readRequest_append {outcome : Except HttpParse HttpRequest} (more : List UInt8)
    (read : readRequest buf.length buf = some outcome) (decided : outcome ≠ .error .incomplete) :
    readRequest (buf ++ more).length (buf ++ more) = some outcome := by
  have grown : buf.length ≤ (buf ++ more).length := by
    rw [List.length_append]
    exact Nat.le_add_right _ _
  obtain ⟨found, looked, ends⟩ := exists_findHeadEnd buf (kPortalMaxHead + 1) 0
  rw [readRequest, bind_of_ok looked] at read
  rw [readRequest]
  cases found with
  | none =>
      cases read
      have long : kPortalMaxHead + 3 < buf.length := by
        by_contra short
        rw [if_neg short] at decided
        exact decided rfl
      rw [bind_of_ok (findHeadEnd_append more (.inr (by omega)) looked)]
      simp only [if_pos long, if_pos (Nat.lt_of_lt_of_le long grown)]
      rfl
  | some headEnd =>
      obtain ⟨⟨front, rest, shape, length⟩, -⟩ := ends headEnd rfl
      have inside : headEnd + 4 ≤ buf.length := by
        rw [shape, ← length]
        simp only [List.length_append, crlf, List.length_cons]
        omega
      rw [bind_of_ok (findHeadEnd_append more (.inl (by simp)) looked)]
      obtain ⟨e, stopped, rfl⟩ | ⟨line, returned, read⟩ := bind_eq_some read
      · exact bind_of_error (stable_requestLine headEnd buf more _ stopped)
      refine (bind_of_ok (stable_requestLine headEnd buf more _ returned)).trans ?_
      have grows := @headers_extends buf _ _ headEnd (Nat.le_of_succ_le inside) grown (headEnd + 2)
        (line.lineLen + 2) ⟨false, 0⟩ more
      obtain ⟨e, stopped, rfl⟩ | ⟨declared, returned, read⟩ := bind_eq_some read
      · exact bind_of_error (grows _ stopped)
      refine (bind_of_ok (grows _ returned)).trans ?_
      exact readContent_append more inside read decided

section

variable {out req : HttpRequest} {verdict : HttpParse}

theorem parseHttpRequest_total (buf : List UInt8) (out : HttpRequest) :
    ∃ verdict req, parseHttpRequest buf out = some (verdict, req) ∧
      (verdict = .ok → Accepted buf req) ∧ (verdict ≠ .ok → req = out) ∧
      (verdict = .incomplete → buf.length < kPortalMaxHead + 4 + kPortalMaxBody) := by
  rw [parseHttpRequest]
  obtain ⟨verdict, read, holds⟩ | ⟨request, read, accepted⟩ := (meets_readRequest buf).outcome
  · rw [read]
    refine ⟨verdict, out, rfl, ?_, fun _ => rfl, ?_⟩
    · rintro rfl
      exact absurd holds (by simp)
    · rintro rfl
      exact (holds.resolve_left (by simp)).2
  · rw [read]
    exact ⟨.ok, request, rfl, fun _ => accepted, fun other => absurd rfl other,
      fun impossible => HttpParse.noConfusion impossible⟩

theorem parseHttpRequest_append (more : List UInt8) (parsed : parseHttpRequest buf out = some (verdict, req))
    (decided : verdict ≠ .incomplete) : parseHttpRequest (buf ++ more) out = some (verdict, req) := by
  rw [parseHttpRequest, Option.map_eq_some_iff] at parsed
  obtain ⟨outcome, read, same⟩ := parsed
  have settled : outcome ≠ .error .incomplete := by
    rintro rfl
    cases same
    exact decided rfl
  rw [parseHttpRequest, readRequest_append more read settled, Option.map_some, same]

/-- All that is left to read decides as the whole stream does. -/
theorem serveLoop_eq (reads : List (List UInt8))
    (waiting : parseHttpRequest buf req = some (.incomplete, req)) :
    serveLoop buf req reads = parseHttpRequest (buf ++ reads.flatten) req := by
  induction reads generalizing buf with
  | nil => rw [serveLoop, List.flatten_nil, List.append_nil, waiting]
  | cons chunk reads ih =>
      rw [serveLoop, List.flatten_cons]
      split
      next empty =>
        rw [List.isEmpty_iff.mp empty, List.nil_append]
        exact ih waiting
      next =>
        obtain ⟨verdict, next, parsed, -, unread, -⟩ := parseHttpRequest_total (buf ++ chunk) req
        rw [parsed, ← List.append_assoc]
        by_cases decided : verdict = .incomplete
        · subst decided
          obtain rfl : next = req := unread (by decide)
          exact ih parsed
        · simp only [ne_eq, decided, not_false_eq_true, if_true]
          exact (parseHttpRequest_append reads.flatten parsed decided).symm

theorem serveOne_eq (reads : List (List UInt8)) :
    serveOne reads = parseHttpRequest reads.flatten .empty :=
  serveLoop_eq reads rfl

end

/-- The parser reads inside its buffer only, what it says it says of every longer stream,
what it accepts is a request with the body declared, and it waits for 1540 bytes at most;
so the answer to a stream does not depend on how the reads cut it. -/
theorem portal_verdict_settled :
    (∀ buf out, ∃ verdict req, parseHttpRequest buf out = some (verdict, req)) ∧
    (∀ buf more out verdict req, parseHttpRequest buf out = some (verdict, req) → verdict ≠ .incomplete →
      parseHttpRequest (buf ++ more) out = some (verdict, req)) ∧
    (∀ buf out req, parseHttpRequest buf out = some (.ok, req) →
      Accepted buf req ∧ req.body.length ≤ 512) ∧
    (∀ buf out req, 1028 + 512 ≤ buf.length → parseHttpRequest buf out ≠ some (.incomplete, req)) ∧
    ∀ reads others : List (List UInt8), reads.flatten = others.flatten → serveOne reads = serveOne others := by
  refine ⟨fun buf out => ?_, fun buf more out verdict req => parseHttpRequest_append more,
    fun buf out req parsed => ?_, fun buf out req long parsed => ?_, fun reads others same => ?_⟩
  · obtain ⟨verdict, req, parsed, -⟩ := parseHttpRequest_total buf out
    exact ⟨verdict, req, parsed⟩
  · obtain ⟨verdict, other, same, accepted, -⟩ := parseHttpRequest_total buf out
    cases parsed.symm.trans same
    obtain ⟨first, lines, rest, fields⟩ := accepted rfl
    exact ⟨⟨first, lines, rest, fields⟩, fields.2.2.2.2⟩
  · obtain ⟨verdict, other, same, -, -, short⟩ := parseHttpRequest_total buf out
    cases parsed.symm.trans same
    have short := short rfl
    simp only [kPortalMaxHead, kPortalMaxBody] at short
    omega
  · rw [serveOne_eq, serveOne_eq, same]

/-! A form that arrives in pieces, with more behind it. -/

def sampleForm : List UInt8 := ascii "POST /save?x HTTP/1.1\r\ncontent-LENGTH:  3 \r\nA: b\r\n\r\nabc"

def sampleFormRequest : HttpRequest := ⟨ascii "POST", ascii "/save", ascii "abc"⟩

theorem portal_verdict_settled_sample :
    parseHttpRequest (sampleForm ++ ascii "EXTRA") .empty = some (.ok, sampleFormRequest) ∧
      Accepted sampleForm sampleFormRequest ∧
      parseHttpRequest (.replicate 1540 0) .empty ≠ some (.incomplete, .empty) ∧
      serveOne [sampleForm.take 20, [], sampleForm.drop 20] = serveOne [sampleForm] := by
  obtain ⟨-, grows, accepts, decides, cuts⟩ := portal_verdict_settled
  have parsed : parseHttpRequest sampleForm .empty = some (.ok, sampleFormRequest) := by
    decide +kernel
  refine ⟨grows _ _ _ _ _ parsed (by decide), (accepts _ _ _ parsed).1,
    decides _ _ _ (by rw [List.length_replicate]), cuts _ _ ?_⟩
  simp

end Presence.Firmware
