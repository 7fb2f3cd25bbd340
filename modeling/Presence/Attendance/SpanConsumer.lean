import Presence.Attendance.Consumer

namespace Presence.Attendance

open Presence.Data Presence.Go Presence.Gateway Presence.Postgres

/-! # When span consumers converge

The projector keys a span by both of its punches, a consumer by one of them, and
the comparison leaves out the person and the date.  So the events of a call do not
always say what became of `attendance_span`.  `Orderly` names the calls whose events
do, and runs of such calls converge.
-/

def SpanRow.anchor (row : SpanRow) : Option Int := Attendance.anchor row.inEventId row.outEventId

/-- What a row under the consumer's key shows. -/
def Tables.spanTable (tables : Tables) (key : Option Int) : Option SpanView :=
  (tables.spans.rows.find? (·.anchor = key)).map SpanRow.view

structure Orderly (tables : Tables) (org : Uuid) (queried : Queried) (window : Window) : Prop where
  /-- A span that keeps the consumer's key keeps both of its punches. -/
  reanchored : ∀ row ∈ tables.spans.rows, row.inScope org window = true →
    ∀ span ∈ queried.spanSnapshots window, row.anchor = span.anchor → row.snapshot.key = span.key
  /-- A span whose punches, times and anomalies stay keeps its person and its date. -/
  reassigned : ∀ row ∈ tables.spans.rows, row.inScope org window = true →
    ∀ span ∈ queried.spanSnapshots window, row.snapshot.key = span.key →
      row.snapshot.equal span = true →
      row.personId = span.personId ∧ row.businessDate = span.businessDate.date
  /-- A row that stays has no new span's key, or shows the same for the organisation. -/
  apart : ∀ row ∈ tables.spans.rows, row.inScope org window = false →
    ∀ span ∈ queried.spanSnapshots window, row.anchor = span.anchor →
      row.orgId = org ∧ row.view = span.view

instance (tables : Tables) (org : Uuid) (queried : Queried) (window : Window) :
    Decidable (Orderly tables org queried window) :=
  decidable_of_iff
    ((∀ row ∈ tables.spans.rows, row.inScope org window = true →
        ∀ span ∈ queried.spanSnapshots window,
          row.anchor = span.anchor → row.snapshot.key = span.key) ∧
      (∀ row ∈ tables.spans.rows, row.inScope org window = true →
        ∀ span ∈ queried.spanSnapshots window, row.snapshot.key = span.key →
          row.snapshot.equal span = true →
          row.personId = span.personId ∧ row.businessDate = span.businessDate.date) ∧
      ∀ row ∈ tables.spans.rows, row.inScope org window = false →
        ∀ span ∈ queried.spanSnapshots window, row.anchor = span.anchor →
          row.orgId = org ∧ row.view = span.view)
    ⟨fun met => ⟨met.1, met.2.1, met.2.2⟩,
      fun orderly => ⟨orderly.reanchored, orderly.reassigned, orderly.apart⟩⟩

/-- Rows under one key show the same, for one organisation. -/
def SpanTable.Consistent (table : SpanTable) : Prop :=
  ∀ first ∈ table.rows, ∀ second ∈ table.rows, first.anchor = second.anchor →
    first.orgId = second.orgId ∧ first.view = second.view

def SpanTable.Positive (table : SpanTable) : Prop :=
  ∀ row ∈ table.rows, ∀ id ∈ row.snapshot.ids, 0 < id

variable {tables next : Tables} {org : Uuid} {queried : Queried} {window : Window}
  {orgId : String} {emittedAt : Int} {key : Option Int} {view : SpanView}

theorem Tables.spanTable_eq_none :
    tables.spanTable key = none ↔ ∀ row ∈ tables.spans.rows, row.anchor ≠ key := by
  simp [Tables.spanTable]

theorem Tables.spanTable_eq_some (consistent : tables.spans.Consistent) :
    tables.spanTable key = some view ↔
      ∃ row ∈ tables.spans.rows, row.anchor = key ∧ row.view = view := by
  simp only [Tables.spanTable, Option.map_eq_some_iff]
  constructor
  · intro given
    obtain ⟨row, found, rfl⟩ := given
    have named := List.find?_some found
    exact ⟨row, List.mem_of_find?_eq_some found, by simpa using named, rfl⟩
  · intro given
    obtain ⟨row, stored, named, rfl⟩ := given
    cases found : tables.spans.rows.find? (·.anchor = key) with
    | none =>
        have absent := List.find?_eq_none.mp found row stored
        simp [named] at absent
    | some first =>
        have alike : first.anchor = key := by simpa using List.find?_some found
        have shown := consistent first (List.mem_of_find?_eq_some found) row stored
          (alike.trans named.symm)
        exact ⟨first, rfl, shown.2⟩

namespace Committed

variable (committed : Committed tables next org queried window orgId emittedAt)
include committed

theorem spans_positive (loaded : Loaded queried.byPerson) (positive : tables.spans.Positive) :
    next.spans.Positive := by
  intro row stored
  rcases committed.mem_spans.mp stored with ⟨kept, -⟩ | ⟨snapshot, written, rfl⟩
  · exact positive row kept
  · intro id member
    exact spanSnapshots_positive loaded written id member

theorem spans_consistent (loaded : Loaded queried.byPerson)
    (orderly : Orderly tables org queried window) (consistent : tables.spans.Consistent) :
    next.spans.Consistent := by
  intro first left second right named
  rcases committed.mem_spans.mp left with ⟨kept, outside⟩ | ⟨snapshot, written, rfl⟩
  · rcases committed.mem_spans.mp right with ⟨stays, -⟩ | ⟨snapshot, written, rfl⟩
    · exact consistent first kept second stays named
    · rw [spanSnapshots_row_view loaded org written]
      exact orderly.apart first kept outside snapshot written named
  · rcases committed.mem_spans.mp right with ⟨kept, outside⟩ | ⟨another, rewritten, rfl⟩
    · rw [spanSnapshots_row_view loaded org written]
      obtain ⟨owned, shown⟩ := orderly.apart second kept outside snapshot written named.symm
      exact ⟨owned.symm, shown.symm⟩
    · have distinct := spanSnapshots_anchor_distinct loaded window
      rw [List.inj_on_of_nodup_map distinct written rewritten named]
      exact ⟨rfl, rfl⟩

/-- The events of an orderly call say what it did to the rows. -/
theorem spanTable_recorded {clock : Int} (loaded : Loaded queried.byPerson)
    (orderly : Orderly tables org queried window) (positive : tables.spans.Positive)
    (consistent : tables.spans.Consistent) (newer : clock < emittedAt)
    (recorded : Recorded (tables.spanEvents.map SpanEventPayload.write) tables.spanTable clock) :
    Recorded (next.spanEvents.map SpanEventPayload.write) next.spanTable emittedAt := by
  have after : ∀ {snapshot : SpanSnapshot},
      snapshot ∈ (Keyed.ofList (queried.spanSnapshots window)).values ↔
        snapshot ∈ queried.spanSnapshots window :=
    Keyed.mem_ofList (spanSnapshots_key_distinct loaded window)
  have reconsistent := committed.spans_consistent loaded orderly consistent
  rw [committed.spanWrites]
  apply recorded.append_diff newer
  · intro prev found
    obtain ⟨row, stored, -, rfl⟩ := mem_loadSpanSnapshots found
    rw [Tables.spanTable_eq_some consistent]
    exact ⟨row, stored, rfl, row.snapshot_view.symm⟩
  · intro snapshot found
    have written := after.mp found
    rw [Tables.spanTable_eq_some reconsistent]
    exact ⟨snapshot.row org, committed.mem_spans.mpr (.inr ⟨snapshot, written, rfl⟩), rfl,
      spanSnapshots_row_view loaded org written⟩
  · intro prev found gone
    obtain ⟨row, stored, scope, rfl⟩ := mem_loadSpanSnapshots found
    rw [Tables.spanTable_eq_none]
    intro other present same
    rcases committed.mem_spans.mp present with ⟨kept, outside⟩ | ⟨snapshot, written, rfl⟩
    · -- it shows what the cleared row showed, the date included, and was cleared too
      obtain ⟨cleared, covered⟩ := Window.selects_iff.mp scope
      obtain ⟨owned, shown⟩ := consistent other kept row stored same
      have date : other.businessDate = row.businessDate := congrArg SpanView.businessDate shown
      have inside : other.inScope org window = true :=
        Window.selects_iff.mpr ⟨owned.trans cleared, date ▸ covered⟩
      rw [inside] at outside
      cases outside
    · exact gone snapshot (after.mpr written) same
  · intro here unread unwritten
    apply Option.ext
    intro view
    rw [Tables.spanTable_eq_some reconsistent, Tables.spanTable_eq_some consistent]
    constructor
    · intro given
      obtain ⟨row, present, named, shown⟩ := given
      rcases committed.mem_spans.mp present with ⟨kept, -⟩ | ⟨snapshot, written, rfl⟩
      · exact ⟨row, kept, named, shown⟩
      · exact absurd named (unwritten snapshot (after.mpr written))
    · intro given
      obtain ⟨row, stored, named, shown⟩ := given
      refine ⟨row, committed.mem_spans.mpr (.inl ⟨stored, ?_⟩), named, shown⟩
      rw [Bool.eq_false_iff]
      intro scope
      obtain ⟨read, found, alike⟩ := exists_mem_loadSpanSnapshots stored scope
      obtain ⟨twin, twinStored, -, rfl⟩ := mem_loadSpanSnapshots found
      apply unread _ found
      exact (SpanSnapshot.anchor_eq_of_key alike (positive twin twinStored)
        (positive row stored)).trans named
  · intro prev found snapshot written
    obtain ⟨row, stored, scope, rfl⟩ := mem_loadSpanSnapshots found
    constructor
    · exact fun alike => SpanSnapshot.anchor_eq_of_key alike (positive row stored)
        (spanSnapshots_positive loaded (after.mp written))
    · exact orderly.reanchored row stored scope snapshot (after.mp written)
  · intro prev found snapshot written alike passes
    obtain ⟨row, stored, scope, rfl⟩ := mem_loadSpanSnapshots found
    obtain ⟨person, date⟩ :=
      orderly.reassigned row stored scope snapshot (after.mp written) alike passes
    obtain ⟨started, ended, perm⟩ := SpanSnapshot.equal_iff.mp passes
    rw [SpanSnapshot.view_eq_iff]
    refine ⟨person, ?_, started, ended, List.toFinset_eq_of_perm _ _ perm⟩
    exact (scannedDate_date row.businessDate).trans date

end Committed

/-! ## Every run -/

structure SpansRecorded (state : State) : Prop where
  positive : state.tables.spans.Positive
  consistent : state.tables.spans.Consistent
  recorded : Recorded (state.tables.spanEvents.map SpanEventPayload.write) state.tables.spanTable
    state.clock

/-- A call whose queries fail writes nothing. -/
def State.orderlyQueries (state : State) (call : Call) :
    Except RecomputeError (Uuid × Queried) → Prop
  | .error _ => True
  | .ok (org, queried) =>
      Orderly state.tables org queried (queried.window call.lower call.upper)

instance (state : State) (call : Call) :
    (queries : Except RecomputeError (Uuid × Queried)) →
      Decidable (state.orderlyQueries call queries)
  | .error _ => inferInstanceAs (Decidable True)
  | .ok (_, _) => inferInstanceAs (Decidable (Orderly ..))

def State.orderly (loadLocation : String → Option Location) (state : State) : Input → Prop
  | .fault _ => True
  | .recompute call => state.orderlyQueries call (call.query loadLocation)

instance (loadLocation : String → Option Location) (state : State) :
    (input : Input) → Decidable (state.orderly loadLocation input)
  | .fault _ => inferInstanceAs (Decidable True)
  | .recompute _ => inferInstanceAs (Decidable (state.orderlyQueries ..))

variable {loadLocation : String → Option Location}

theorem spansRecorded_initial (clock : Int) : SpansRecorded (.initial clock) where
  positive := fun _ stored => absurd stored List.not_mem_nil
  consistent := fun _ stored => absurd stored List.not_mem_nil
  recorded := ⟨reflects_nil, fun _ member => absurd member List.not_mem_nil⟩

theorem SpansRecorded.step {state next : State} {input : Input} (recorded : SpansRecorded state)
    (orderly : state.orderly loadLocation input)
    (taken : state.step loadLocation input = some next) : SpansRecorded next := by
  obtain ⟨later, same | ⟨call, org, queried, rfl, clock, queries, committed⟩⟩ :=
    State.step_cases taken
  · constructor
    · exact same ▸ recorded.positive
    · exact same ▸ recorded.consistent
    · rw [same]
      exact recorded.recorded.later later.le
  · have loaded := Call.query_loaded queries
    simp only [State.orderly, queries, State.orderlyQueries] at orderly
    refine ⟨committed.spans_positive loaded recorded.positive,
      committed.spans_consistent loaded orderly recorded.consistent, ?_⟩
    rw [clock] at later ⊢
    exact committed.spanTable_recorded loaded orderly recorded.positive recorded.consistent later
      recorded.recorded

/-- In a run of orderly calls, a consumer that has received every span event, in
whatever order and however often, holds the rows of `attendance_span`. -/
theorem State.spanConsumers_converge_of_orderly {clock : Int} {inputs : List Input} {final : State}
    (along : Along (State.step loadLocation) (State.orderly loadLocation) (.initial clock) inputs)
    (ran : run (State.step loadLocation) (.initial clock) inputs = some final)
    {delivered : List SpanEventPayload}
    (seen : ∀ event, event ∈ delivered ↔ event ∈ final.tables.spanEvents)
    (key : Option Int) (view : SpanView) :
    (spanConsumer delivered).read key = some view ↔
      ∃ row ∈ final.tables.spans.rows, row.anchor = key ∧ row.view = view := by
  have recorded : SpansRecorded final :=
    along.invariant (fun _ _ _ => SpansRecorded.step) (spansRecorded_initial clock) ran
  have received : ∀ write, write ∈ delivered.map SpanEventPayload.write ↔
      write ∈ final.tables.spanEvents.map SpanEventPayload.write := by
    simp [seen]
  rw [spanConsumer, recorded.recorded.reflects.read_receive received,
    Tables.spanTable_eq_some recorded.consistent]

/-! One recompute between the arrival and the departure, one after both.  The second
emits that the span of punch 1 is gone and that the span of punches 1 and 2 is there,
at one instant and under one key of the consumer, which keeps whichever comes first. -/

def betweenPunches : List Input :=
  [.recompute (sampleCall arrived (sampleDay + 10 * hour)),
    .recompute (sampleCall departed (sampleDay + 18 * hour))]

theorem betweenPunches_run : (run (State.step sampleLocation) (.initial sampleDay) betweenPunches).isSome := by
  decide +kernel

theorem betweenPunches_diverge :
    ∃ final, run (State.step sampleLocation) (.initial sampleDay) betweenPunches = some final ∧
      ∃ delivered : List SpanEventPayload,
        (∀ event, event ∈ delivered ↔ event ∈ final.tables.spanEvents) ∧
        (spanConsumer delivered).read (some 1) = none ∧
        ∃ row ∈ final.tables.spans.rows, row.anchor = some 1 := by
  refine ⟨_, (Option.some_get betweenPunches_run).symm, List.reverse _,
    fun event => List.mem_reverse, ?_, ?_⟩
  · decide +kernel
  · decide +kernel

/-- Both calls after the departure. -/
def afterPunches : List Input :=
  [.recompute (sampleCall departed (sampleDay + 18 * hour)), .fault (sampleDay + 19 * hour),
    .recompute (sampleCall departed (sampleDay + 20 * hour))]

theorem afterPunches_run : (run (State.step sampleLocation) (.initial sampleDay) afterPunches).isSome := by
  decide +kernel

theorem afterPunches_converge :
    ∃ final, run (State.step sampleLocation) (.initial sampleDay) afterPunches = some final ∧
      final.tables.spans.rows.length = 1 ∧
      ∀ key view, (spanConsumer final.tables.spanEvents.reverse).read key = some view ↔
        ∃ row ∈ final.tables.spans.rows, row.anchor = key ∧ row.view = view := by
  have ran := (Option.some_get afterPunches_run).symm
  refine ⟨_, ran, by decide +kernel, ?_⟩
  exact State.spanConsumers_converge_of_orderly (by decide +kernel) ran
    fun event => List.mem_reverse

end Presence.Attendance
