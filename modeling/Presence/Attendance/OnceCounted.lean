import Presence.Attendance.Records

namespace Presence.Attendance

open Presence.Data Presence.Go Presence.Gateway Presence.Postgres

/-! # Punches counted twice

An arrival cannot start two stored spans: its column has a unique index.  A departure
has none, and the rows of other dates stay when a window is rebuilt.  So a departure
is counted twice when a later punch moves the start of its span into the window and
the row it ended before lies outside.
-/

def SpanRow.ids (row : SpanRow) : List Int := row.inEventId.toList ++ row.outEventId.toList

/-- Every punch anchors at most one row, at one of its ends. -/
def CountedOnce (rows : List SpanRow) : Prop := (rows.flatMap SpanRow.ids).Nodup

/-- The event of a column is a stored punch of the row's organisation. -/
def Sources.Tells (db : Sources) (org : Uuid) (direction : PunchDirection) (id : Int) : Prop :=
  ∃ event ∈ db.punchEvent, (event.id : Int) = id ∧ event.orgId = org ∧ event.direction = direction

def Occurrence.plain : Occurrence → Bool
  | .ingest _ | .recompute _ => true
  | .amend _ | .reschedule .. => false

/-- The window leaves the row in place, and one departure ends the row and the span. -/
def SpanRow.staysAndEnds (org : Uuid) (window : Window) (row : SpanRow) (span : Span) : Bool :=
  decide (row.orgId = org ∧ window.covers row.businessDate = false ∧
    span.outEventId.isSome = true ∧ span.outEventId = row.outEventId)

/-- What the whole history pairs into. -/
def Sources.historySpans (db : Sources) (org : Uuid) (rules : Rules) : List Span :=
  (db.history org).flatMap fun entry => pair entry.2 rules

namespace Records

/-- No closed span of the whole history is longer than the longest plausible one. -/
def Short (records : Records) (org : Uuid) (rules : Rules) : Prop :=
  Pairing.Bounded rules (records.sources.historySpans org rules)

/-- The departure of a row that the window leaves in place ends no span of the history
that starts in the window. -/
def LeavesEnds (records : Records) (org : Uuid) (rules : Rules) (window : Window) : Prop :=
  ∀ row ∈ records.tables.spans.rows, ∀ span ∈ records.sources.historySpans org rules,
    SpanRow.staysAndEnds org window row span = true →
      window.requested (businessDate span.startedAt rules) = false

/-- Neither a long span nor a late punch has moved what the call is about to write. -/
def UpToDate (loadLocation : String → Option Location) (records : Records) : Occurrence → Prop
  | .recompute request =>
      match (request.call records.sources).query loadLocation with
      | .error _ => True
      | .ok (org, queried) =>
          records.Short org queried.rules ∧
            records.LeavesEnds org queried.rules (queried.window request.lower request.upper)
  | _ => True

structure Traced (records : Records) : Prop where
  unamended : records.sources.punchAmendment = []
  arrivals : ∀ row ∈ records.tables.spans.rows, ∀ id ∈ row.inEventId,
    records.sources.Tells row.orgId .in id
  departures : ∀ row ∈ records.tables.spans.rows, ∀ id ∈ row.outEventId,
    records.sources.Tells row.orgId .out id
  once : CountedOnce records.tables.spans.rows

end Records

variable {db : Sources} {org : Uuid} {queried : Queried} {window : Window} {id : Int}
  {loadLocation : String → Option Location} {records next : Records}

/-! ## Without amendments -/

theorem Sources.amended_none {α : Type} (unamended : db.punchAmendment = []) (event : Nat)
    (field : PunchAmendmentRow → Option α) : db.amended event field = none := by
  simp [Sources.amended, Sources.amendments, unamended]

theorem AmendedTo.direction_eq {row : PunchEventRow} {person : String} {punch : Punch}
    (amended : AmendedTo db org row person punch) (unamended : db.punchAmendment = []) :
    Direction.ofPunch row.direction = some punch.direction := by
  have direction := amended.direction
  rwa [Sources.amended_none unamended] at direction

theorem Direction.ofPunch_eq_some {recorded : PunchDirection} :
    (Direction.ofPunch recorded = some .in ↔ recorded = .in) ∧
      (Direction.ofPunch recorded = some .out ↔ recorded = .out) := by
  cases recorded <;> simp [Direction.ofPunch]

theorem tells_of_loaded {fetchFrom fetchTo : Int} {entry : String × List Punch} {punch : Punch}
    (unamended : db.punchAmendment = []) (listed : entry ∈ loadPunches db org fetchFrom fetchTo)
    (member : punch ∈ entry.2) :
    (punch.direction = .in → db.Tells org .in punch.eventId) ∧
      (punch.direction = .out → db.Tells org .out punch.eventId) := by
  obtain ⟨row, stored, amended, -⟩ := fed_loadPunches.mp ⟨entry, listed, rfl, member⟩
  have told := amended.direction_eq unamended
  constructor
  · intro arriving
    rw [arriving] at told
    exact ⟨row, stored, amended.eventId.symm, amended.org, Direction.ofPunch_eq_some.1.mp told⟩
  · intro leaving
    rw [leaving] at told
    exact ⟨row, stored, amended.eventId.symm, amended.org, Direction.ofPunch_eq_some.2.mp told⟩

/-- The columns of a written span tell of the punches it was paired from. -/
theorem tells_of_spanSnapshots {call : Call} (queries : call.Queries loadLocation org queried)
    (unamended : call.sources.punchAmendment = []) {snapshot : SpanSnapshot}
    (member : snapshot ∈ queried.spanSnapshots window) :
    (∀ id ∈ snapshot.inEventId, call.sources.Tells org .in id) ∧
      ∀ id ∈ snapshot.outEventId, call.sources.Tells org .out id := by
  obtain ⟨entry, listed, date, span, paired, rfl⟩ := mem_spanSnapshots member
  rw [queries.loaded] at listed
  constructor
  · intro id arrived
    obtain ⟨punch, held, rfl, arriving, -⟩ := inEvent_of_mem_pair paired arrived
    exact (tells_of_loaded unamended listed held).1 arriving
  · intro id left
    obtain ⟨punch, held, rfl, leaving⟩ := outEvent_of_mem_pair paired left
    exact (tells_of_loaded unamended listed held).2 leaving

/-- A stored punch has one direction and one organisation. -/
theorem Sources.Tells.unique {other : Uuid} {first second : PunchDirection}
    (left : db.Tells org first id) (right : db.Tells other second id) :
    org = other ∧ first = second := by
  obtain ⟨event, here, named, rfl, rfl⟩ := left
  obtain ⟨event', there, named', rfl, rfl⟩ := right
  have same : event = event' :=
    List.inj_on_of_nodup_map db.primaryKey here there (Int.ofNat_inj.mp (named.trans named'.symm))
  rw [same]
  exact ⟨rfl, rfl⟩

theorem unmoved_of_unamended {call : Call} (unamended : call.sources.punchAmendment = []) :
    call.Unmoved org := by
  intro row stored person punch amended
  have instant := amended.instant
  rw [Sources.amended_none unamended, Option.getD_none] at instant
  rw [Punch.within, decide_eq_true_iff, instant]

/-- What the call writes is in the history. -/
theorem history_of_spanSnapshots (regular : Regular loadLocation) {call : Call}
    (queries : call.Queries loadLocation org queried) (unamended : call.sources.punchAmendment = [])
    (short : Pairing.Bounded queried.rules (call.sources.historySpans org queried.rules))
    {snapshot : SpanSnapshot}
    (member : snapshot ∈ queried.spanSnapshots (queried.window call.lower call.upper)) :
    ∃ span ∈ call.sources.historySpans org queried.rules, snapshot.outEventId = span.outEventId ∧
        (queried.window call.lower call.upper).requested
          (businessDate span.startedAt queried.rules) = true := by
  obtain ⟨low, high, all⟩ := exists_range call.sources.punchEvent
  have whole : loadPunches call.sources org low high = call.sources.history org :=
    Sources.loadPunches_eq_history all
  have shown := (unmoved_of_unamended unamended).showsHistory regular queries low high all
    (by
      rw [whole]
      exact fun entry listed span paired => short span (List.mem_flatMap.mpr ⟨entry, listed, paired⟩))
  rw [whole] at shown
  obtain ⟨entry, person, span, paired, rfl, requested⟩ :=
    mem_spanSnapshots_dated ((shown.spans snapshot).mp member)
  exact ⟨span, List.mem_flatMap.mpr ⟨entry, person, paired⟩, rfl, requested⟩

/-! ## One step -/

theorem Sources.Tells.ingest {row : PunchEventRow} {direction : PunchDirection}
    (tells : db.Tells org direction id) (admitted : db.Admits row) :
    (db.ingest row admitted).Tells org direction id := by
  obtain ⟨event, stored, told⟩ := tells
  exact ⟨event, List.mem_append_left _ stored, told⟩

namespace Records

theorem Traced.ingest {row : PunchEventRow} (traced : records.Traced)
    (admitted : records.sources.Admits row) :
    Traced { records with sources := records.sources.ingest row admitted } where
  unamended := traced.unamended
  arrivals := fun row listed id held => (traced.arrivals row listed id held).ingest admitted
  departures := fun row listed id held => (traced.departures row listed id held).ingest admitted
  once := traced.once

/-- A row left in place and a row written share no punch. -/
theorem Traced.disjoint (traced : records.Traced) (regular : Regular loadLocation) {request : Request}
    {next : Tables} (queries : (request.call records.sources).Queries loadLocation org queried)
    (short : records.Short org queried.rules)
    (leaves : records.LeavesEnds org queried.rules (queried.window request.lower request.upper))
    (committed : Committed records.tables next org queried (queried.window request.lower request.upper)
      request.orgId request.emittedAt)
    {row : SpanRow} (kept : row ∈ (clearSpans records.tables.spans org
      (queried.window request.lower request.upper)).rows)
    {snapshot : SpanSnapshot}
    (written : snapshot ∈ queried.spanSnapshots (queried.window request.lower request.upper)) :
    row.ids.Disjoint snapshot.ids := by
  obtain ⟨stored, outside⟩ := List.mem_filter.mp kept
  obtain ⟨arrivals, departures⟩ := tells_of_spanSnapshots queries traced.unamended written
  intro id old new
  rw [SpanRow.ids, List.mem_append, Option.mem_toList, Option.mem_toList] at old
  rw [SpanSnapshot.ids, List.mem_append, Option.mem_toList, Option.mem_toList] at new
  rcases old with startedOld | endedOld <;> rcases new with started | ended
  · -- the unique index
    have index := next.spans.inEventIdx
    rw [committed.spans, List.filterMap_append] at index
    have apart := (List.nodup_append.mp index).2.2
    refine apart id (List.mem_filterMap.mpr ⟨row, kept, startedOld⟩) id
      (List.mem_filterMap.mpr ⟨snapshot.row org, List.mem_map_of_mem written, started⟩) rfl
  · have same := ((traced.arrivals row stored id startedOld).unique (departures id ended)).2
    cases same
  · have same := ((traced.departures row stored id endedOld).unique (arrivals id started)).2
    cases same
  · have here := ((traced.departures row stored id endedOld).unique (departures id ended)).1
    have uncovered : (queried.window request.lower request.upper).covers row.businessDate = false := by
      rw [Bool.eq_false_iff]
      intro covered
      have inScope : row.inScope org (queried.window request.lower request.upper) = true :=
        Window.selects_iff.mpr ⟨here, covered⟩
      rw [inScope] at outside
      cases outside
    obtain ⟨span, paired, same, requested⟩ :=
      history_of_spanSnapshots regular queries traced.unamended short written
    have left : span.outEventId = some id := same.symm.trans ended
    have moved := leaves row stored span paired
      (decide_eq_true ⟨here, uncovered, by rw [left]; rfl, left.trans endedOld.symm⟩)
    have requested : (queried.window request.lower request.upper).requested
        (businessDate span.startedAt queried.rules) = true := requested
    rw [moved] at requested
    cases requested

theorem Traced.recompute (traced : records.Traced) (regular : Regular loadLocation) {request : Request}
    {tables : Tables} (queries : (request.call records.sources).Queries loadLocation org queried)
    (short : records.Short org queried.rules)
    (leaves : records.LeavesEnds org queried.rules (queried.window request.lower request.upper))
    (committed : Committed records.tables tables org queried (queried.window request.lower request.upper)
      request.orgId request.emittedAt) :
    Traced { records with tables } := by
  have loaded : Loaded queried.byPerson := Call.query_loaded (Call.query_iff.mpr queries)
  refine ⟨traced.unamended, ?_, ?_, ?_⟩
  · intro row listed id held
    rcases committed.mem_spans.mp listed with ⟨old, -⟩ | ⟨snapshot, written, rfl⟩
    · exact traced.arrivals row old id held
    · exact (tells_of_spanSnapshots queries traced.unamended written).1 id held
  · intro row listed id held
    rcases committed.mem_spans.mp listed with ⟨old, -⟩ | ⟨snapshot, written, rfl⟩
    · exact traced.departures row old id held
    · exact (tells_of_spanSnapshots queries traced.unamended written).2 id held
  · change CountedOnce tables.spans.rows
    simp only [CountedOnce]
    rw [committed.spans, List.flatMap_append, List.flatMap_map]
    refine List.nodup_append.mpr ⟨?_, spanSnapshots_ids_nodup loaded _, ?_⟩
    · exact traced.once.sublist (List.filter_sublist.flatMap _)
    · intro id old other new same
      obtain ⟨row, kept, held⟩ := List.mem_flatMap.mp old
      obtain ⟨snapshot, written, anchors⟩ := List.mem_flatMap.mp new
      exact traced.disjoint regular queries short leaves committed kept written held (same ▸ anchors)

theorem Traced.step {occurrence : Occurrence} (traced : records.Traced) (regular : Regular loadLocation)
    (plain : occurrence.plain = true) (upToDate : records.UpToDate loadLocation occurrence)
    (stepped : records.step loadLocation occurrence = some next) : next.Traced := by
  cases occurrence with
  | ingest row =>
      obtain ⟨admitted, rfl⟩ := step_ingest stepped
      exact traced.ingest admitted
  | amend row => cases plain
  | reschedule schedule personSchedule => cases plain
  | recompute request =>
      rcases step_recompute stepped with rfl | ⟨same, org, queried, queries, committed⟩
      · exact traced
      · simp only [UpToDate, queries] at upToDate
        obtain ⟨short, leaves⟩ := upToDate
        obtain ⟨sources, tables⟩ := next
        cases same
        exact traced.recompute regular (Call.query_iff.mp queries) short leaves committed

/-- The day of the sample, recomputed at noon and again in the evening. -/
def inOrder : List Occurrence :=
  [.ingest (samplePunch 1 .in (8 * hour)), .recompute (sampleRequest 0 1),
    .ingest (samplePunch 2 .out (17 * hour)), .recompute (sampleRequest 0 2)]

instance (rules : Rules) (spans : List Span) : Decidable (Pairing.Bounded rules spans) :=
  List.decidableBAll (fun span : Span => span.inEventId.isSome = true → span.outEventId.isSome = true →
    span.duration ≤ rules.maxPlausibleSpan) spans

instance (records : Records) (org : Uuid) (rules : Rules) (window : Window) :
    Decidable (records.LeavesEnds org rules window) :=
  @List.decidableBAll _ _ (fun row => List.decidableBAll (fun span : Span =>
      SpanRow.staysAndEnds org window row span = true →
        window.requested (businessDate span.startedAt rules) = false)
    (records.sources.historySpans org rules)) records.tables.spans.rows

instance (records : Records) (org : Uuid) (rules : Rules) : Decidable (records.Short org rules) :=
  inferInstanceAs (Decidable (Pairing.Bounded rules (records.sources.historySpans org rules)))

instance (loadLocation : String → Option Location) (records : Records) :
    (occurrence : Occurrence) → Decidable (records.UpToDate loadLocation occurrence)
  | .ingest _ => .isTrue trivial
  | .amend _ => .isTrue trivial
  | .reschedule .. => .isTrue trivial
  | .recompute request =>
      match queries : (request.call records.sources).query loadLocation with
      | .error _ => .isTrue (by simp only [UpToDate, queries])
      | .ok (org, queried) =>
          decidable_of_iff (records.Short org queried.rules ∧
              records.LeavesEnds org queried.rules (queried.window request.lower request.upper))
            (by simp only [UpToDate, queries])

end Records

end Presence.Attendance
