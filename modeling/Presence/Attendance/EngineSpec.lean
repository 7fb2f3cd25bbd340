import Mathlib.Data.List.Flatten
import Presence.Attendance.Engine
import Presence.Data.Except

namespace Presence.Attendance

open Presence.Data Presence.Go Presence.Gateway Presence.Postgres

/-! # What a recompute writes

A recompute that commits replaces the rows of its window by the spans and days
that the queried punches pair into, and appends to the outbox how these differ from
what it found.  The loop over people, days and spans only ever appends, so each
level of it is described by the snapshots it added.
-/

def daySpans (person : String) (group : Time × List Span) : List SpanSnapshot :=
  group.2.map (spanSnapshot person group.1)

namespace Queried

def dayOf (queried : Queried) (person : String) (group : Time × List Span) : DaySnapshot :=
  daySnapshot person
    (rollup group.1 group.2 (queried.schedules.forPerson person group.1) queried.rules)

def personSpans (queried : Queried) (window : Window) (entry : String × List Punch) :
    List SpanSnapshot :=
  (queried.groups window entry.2).flatMap (daySpans entry.1)

def personDays (queried : Queried) (window : Window) (entry : String × List Punch) :
    List DaySnapshot :=
  (queried.groups window entry.2).map (queried.dayOf entry.1)

def spanSnapshots (queried : Queried) (window : Window) : List SpanSnapshot :=
  queried.byPerson.flatMap (queried.personSpans window)

def daySnapshots (queried : Queried) (window : Window) : List DaySnapshot :=
  queried.byPerson.flatMap (queried.personDays window)

end Queried

structure Wrote (org : Uuid) (start final : Rewrite) (spans : List SpanSnapshot)
    (days : List DaySnapshot) : Prop where
  spanRows : final.spans.rows = start.spans.rows ++ spans.map (SpanSnapshot.row org)
  dayRows : final.days.values = start.days.values ++ days.map (DaySnapshot.row org)
  afterSpans : final.afterSpans = spans.foldl Keyed.set start.afterSpans
  afterDays : final.afterDays = days.foldl Keyed.set start.afterDays

namespace Wrote

variable {org : Uuid} {start middle final : Rewrite} {spans spans' : List SpanSnapshot}
  {days days' : List DaySnapshot}

theorem nothing (start : Rewrite) : Wrote org start start [] [] := by
  constructor <;> simp

theorem trans (first : Wrote org start middle spans days)
    (second : Wrote org middle final spans' days') :
    Wrote org start final (spans ++ spans') (days ++ days') where
  spanRows := by rw [second.spanRows, first.spanRows, List.map_append, List.append_assoc]
  dayRows := by rw [second.dayRows, first.dayRows, List.map_append, List.append_assoc]
  afterSpans := by rw [second.afterSpans, first.afterSpans, List.foldl_append]
  afterDays := by rw [second.afterDays, first.afterDays, List.foldl_append]

/-- What a loop added, from what each round adds. -/
theorem foldlM {α : Type} {round : Rewrite → α → Except RecomputeError Rewrite}
    (spans : α → List SpanSnapshot) (days : α → List DaySnapshot)
    (each : ∀ state item next, round state item = .ok next →
      Wrote org state next (spans item) (days item))
    {items : List α} (ran : items.foldlM round start = .ok final) :
    Wrote org start final (items.flatMap spans) (items.flatMap days) := by
  induction items generalizing start with
  | nil =>
      cases ran
      exact nothing _
  | cons item rest ih =>
      rw [List.foldlM_cons] at ran
      obtain ⟨next, first, later⟩ := except_bind_ok_iff.mp ran
      exact (each start item next first).trans (ih later)

end Wrote

variable {org : Uuid} {queried : Queried} {window : Window} {person : String} {date : Time}
  {start final : Rewrite}

theorem insertSpan_ok {table next : SpanTable} {row : SpanRow}
    (inserted : insertSpan table row = .ok next) : next.rows = table.rows ++ [row] := by
  simp only [insertSpan] at inserted
  split at inserted
  next => cases inserted
  next =>
    split at inserted
    next => cases inserted
    next =>
      split at inserted
      next =>
        cases inserted
        rfl
      next => cases inserted

theorem insertDay_ok {table next : Keyed DayRow.key} {row : DayRow}
    (inserted : insertDay table row = .ok next) : next.values = table.values ++ [row] := by
  simp only [insertDay] at inserted
  split at inserted
  next => cases inserted
  next =>
    split at inserted
    next => cases inserted
    next =>
      split at inserted
      next => cases inserted
      next added =>
        cases inserted
        exact Keyed.add_eq_some added

theorem insertOutboxEvent_ok {table next : Keyed OutboxEventRow.id} {row : OutboxEventRow}
    (inserted : insertOutboxEvent table row = .ok next) : next.values = table.values ++ [row] := by
  simp only [insertOutboxEvent] at inserted
  split at inserted
  next => cases inserted
  next =>
    split at inserted
    next => cases inserted
    next added =>
      cases inserted
      exact Keyed.add_eq_some added

theorem writeSpan_wrote {span : Span} (wrote : writeSpan org person date start span = .ok final) :
    Wrote org start final [spanSnapshot person date span] [] := by
  obtain ⟨spans, inserted, returned⟩ := except_bind_ok_iff.mp wrote
  cases returned
  constructor
  · exact insertSpan_ok (except_mapError_ok_iff.mp inserted)
  · simp
  · rfl
  · rfl

theorem writeDay_wrote {group : Time × List Span}
    (wrote : writeDay org queried person start group = .ok final) :
    Wrote org start final (daySpans person group) [queried.dayOf person group] := by
  obtain ⟨middle, spans, rest⟩ := except_bind_ok_iff.mp wrote
  obtain ⟨days, inserted, returned⟩ := except_bind_ok_iff.mp rest
  have first := Wrote.foldlM (fun span => [spanSnapshot person group.1 span]) (fun _ => [])
    (fun _ _ _ => writeSpan_wrote) spans
  rw [← List.map_eq_flatMap, List.flatMap_eq_nil_iff.mpr fun _ _ => rfl] at first
  have last : Wrote org middle final [] [queried.dayOf person group] := by
    cases returned
    constructor
    · simp
    · exact insertDay_ok (except_mapError_ok_iff.mp inserted)
    · rfl
    · rfl
  simpa only [daySpans, List.append_nil, List.nil_append] using first.trans last

theorem writePerson_wrote {entry : String × List Punch}
    (wrote : writePerson org queried window start entry = .ok final) :
    Wrote org start final (queried.personSpans window entry) (queried.personDays window entry) := by
  obtain ⟨written, days, returned⟩ := except_bind_ok_iff.mp wrote
  cases returned
  have looped := Wrote.foldlM (daySpans entry.1) (fun group => [queried.dayOf entry.1 group])
    (fun _ _ _ => writeDay_wrote) days
  rw [← List.map_eq_flatMap] at looped
  exact ⟨looped.spanRows, looped.dayRows, looped.afterSpans, looped.afterDays⟩

theorem writePeople_wrote
    (wrote : queried.byPerson.foldlM (writePerson org queried window) start = .ok final) :
    Wrote org start final (queried.spanSnapshots window) (queried.daySnapshots window) :=
  Wrote.foldlM (queried.personSpans window) (queried.personDays window)
    (fun _ _ _ => writePerson_wrote) wrote

/-! ## One call -/

/-- What a call that commits did. -/
structure Committed (tables next : Tables) (org : Uuid) (queried : Queried) (window : Window)
    (orgId : String) (emittedAt : Int) : Prop where
  spans : next.spans.rows = (clearSpans tables.spans org window).rows ++
    (queried.spanSnapshots window).map (SpanSnapshot.row org)
  days : next.days.values = (clearDays tables.days org window).values ++
    (queried.daySnapshots window).map (DaySnapshot.row org)
  outbox : ∃ spanId dayId, next.outbox.values = tables.outbox.values ++
    (diffSpans orgId (loadSpanSnapshots tables.spans org window)
        (.ofList (queried.spanSnapshots window)) emittedAt spanId ++
      diffDays orgId (loadDaySnapshots tables.days org window)
        (.ofList (queried.daySnapshots window)) emittedAt dayId).map (OutboxEventRow.mk org)

namespace Committed

variable {tables next : Tables} {orgId : String} {emittedAt : Int}
  (committed : Committed tables next org queried window orgId emittedAt)
include committed

theorem mem_spans {row : SpanRow} : row ∈ next.spans.rows ↔
    row ∈ tables.spans.rows ∧ row.inScope org window = false ∨
      ∃ snapshot ∈ queried.spanSnapshots window, snapshot.row org = row := by
  rw [committed.spans, List.mem_append, List.mem_map]
  simp [clearSpans]

theorem mem_days {row : DayRow} : row ∈ next.days.values ↔
    row ∈ tables.days.values ∧ row.inScope org window = false ∨
      ∃ snapshot ∈ queried.daySnapshots window, snapshot.row org = row := by
  rw [committed.days, List.mem_append, List.mem_map]
  simp [clearDays]

end Committed

theorem appendEvents_ok {events : List OutboxRow} {table next : Keyed OutboxEventRow.id}
    (appended : events.foldlM (fun outbox event => insertOutboxEvent outbox ⟨org, event⟩) table =
      .ok next) :
    next.values = table.values ++ events.map (OutboxEventRow.mk org) := by
  induction events generalizing table with
  | nil =>
      cases appended
      simp
  | cons first rest ih =>
      rw [List.foldlM_cons] at appended
      obtain ⟨middle, inserted, later⟩ := except_bind_ok_iff.mp appended
      rw [ih later, insertOutboxEvent_ok inserted, List.map_cons, List.append_assoc,
        List.singleton_append]

theorem transaction_committed {tables next : Tables} {call : Call} {result : Result}
    (ran : transaction tables org queried call = .ok (next, result)) :
    Committed tables next org queried (queried.window call.lower call.upper) call.orgId
      call.emittedAt := by
  obtain ⟨written, wrote, rest⟩ := except_bind_ok_iff.mp ran
  obtain ⟨outbox, appended, returned⟩ := except_bind_ok_iff.mp rest
  cases returned
  have loop := writePeople_wrote wrote
  have events := appendEvents_ok (except_mapError_ok_iff.mp appended)
  rw [loop.afterSpans, loop.afterDays] at events
  exact ⟨loop.spanRows, loop.dayRows, _, _, events⟩

/-! ## Rows and snapshots -/

def SpanRow.view (row : SpanRow) : SpanView :=
  ⟨row.personId, row.businessDate, row.startedAt, row.endedAt, row.anomalies.toFinset⟩

def DayRow.data (row : DayRow) : DayData :=
  ⟨row.firstInAt, row.lastOutAt, row.totalS, row.spanCount, row.isPresent, row.isLate,
    row.needsReview⟩

@[simp] theorem scannedDate_date (column : Int) : (scannedDate column).date = column := by
  simp only [scannedDate, scanDate, Time.date, Int.add_zero]
  exact Int.mul_ediv_cancel _ (by decide)

theorem SpanRow.snapshot_view (row : SpanRow) : row.snapshot.view = row.view := by
  simp [SpanRow.snapshot, SpanSnapshot.view, SpanSnapshot.data, SpanData.view, SpanRow.view]

theorem DayRow.snapshot_key (row : DayRow) : row.snapshot.key = row.key := by
  simp [DayRow.snapshot, DaySnapshot.key, DayRow.key]

theorem map_timestamptz {column : Option Int}
    (held : ∀ instant ∈ column, timestamptz instant = instant) :
    column.map timestamptz = column := by
  cases column with
  | none => rfl
  | some instant => rw [Option.map_some, held instant rfl]

theorem mem_loadDaySnapshots {table : Keyed DayRow.key} {snapshot : DaySnapshot} :
    snapshot ∈ (loadDaySnapshots table org window).values ↔
      ∃ row ∈ table.values, row.inScope org window = true ∧ row.snapshot = snapshot := by
  have distinct : (((table.values.filter (DayRow.inScope org window)).map DayRow.snapshot).map
      DaySnapshot.key).Nodup := by
    have keys : DaySnapshot.key ∘ DayRow.snapshot = DayRow.key := funext DayRow.snapshot_key
    rw [List.map_map, keys]
    exact table.distinct.sublist (List.filter_sublist.map _)
  rw [loadDaySnapshots, Keyed.mem_ofList distinct]
  simp [and_assoc]

theorem mem_loadSpanSnapshots {table : SpanTable} {snapshot : SpanSnapshot}
    (member : snapshot ∈ (loadSpanSnapshots table org window).values) :
    ∃ row ∈ table.rows, row.inScope org window = true ∧ row.snapshot = snapshot := by
  have listed := (Keyed.mem_of_mem_foldl_set member).resolve_left (by simp [Keyed.empty])
  obtain ⟨row, inScope, rfl⟩ := List.mem_map.mp listed
  obtain ⟨stored, covered⟩ := List.mem_filter.mp inScope
  exact ⟨row, stored, covered, rfl⟩

/-- Of rows with one key one is read. -/
theorem exists_mem_loadSpanSnapshots {table : SpanTable} {row : SpanRow} (stored : row ∈ table.rows)
    (inScope : row.inScope org window = true) :
    ∃ snapshot ∈ (loadSpanSnapshots table org window).values, snapshot.key = row.snapshot.key :=
  Keyed.exists_mem_foldl_set (.inr (List.mem_map.mpr
    ⟨row, List.mem_filter.mpr ⟨stored, inScope⟩, rfl⟩))

/-! ## The snapshots a call wrote -/

/-- The name consumers give a span: `in_event_id ?? out_event_id`. -/
def anchor (inEventId outEventId : Option Int) : Option Int := inEventId <|> outEventId

namespace SpanSnapshot

def anchor (span : SpanSnapshot) : Option Int := Attendance.anchor span.inEventId span.outEventId

def ids (span : SpanSnapshot) : List Int := span.inEventId.toList ++ span.outEventId.toList

theorem mem_ids_of_anchor {span : SpanSnapshot} {id : Int} (anchored : span.anchor = some id) :
    id ∈ span.ids := by
  simp only [anchor, Attendance.anchor] at anchored
  simp only [ids]
  cases arrival : span.inEventId with
  | none => simp_all
  | some known => simp_all

/-- Positive ids are told apart from the 0 of a missing one. -/
theorem eq_of_key {first second : SpanSnapshot} (same : first.key = second.key)
    (firstPositive : ∀ id ∈ first.ids, 0 < id) (secondPositive : ∀ id ∈ second.ids, 0 < id) :
    first.inEventId = second.inEventId ∧ first.outEventId = second.outEventId := by
  have deref_inj : ∀ left right : Option Int, deref left = deref right →
      (∀ id ∈ left, 0 < id) → (∀ id ∈ right, 0 < id) → left = right := by
    intro left right equal leftPositive rightPositive
    cases left <;> cases right <;> simp_all [deref]
  simp only [key, SpanKey.mk.injEq] at same
  constructor
  · apply deref_inj _ _ same.1
    · exact fun id member => firstPositive id (by simp_all [ids])
    · exact fun id member => secondPositive id (by simp_all [ids])
  · apply deref_inj _ _ same.2
    · exact fun id member => firstPositive id (by simp_all [ids])
    · exact fun id member => secondPositive id (by simp_all [ids])

theorem anchor_eq_of_key {first second : SpanSnapshot} (same : first.key = second.key)
    (firstPositive : ∀ id ∈ first.ids, 0 < id) (secondPositive : ∀ id ∈ second.ids, 0 < id) :
    first.anchor = second.anchor := by
  obtain ⟨arrivals, departures⟩ := eq_of_key same firstPositive secondPositive
  rw [anchor, anchor, arrivals, departures]

end SpanSnapshot

theorem groups_sublist (queried : Queried) (window : Window) (punches : List Punch) :
    ((queried.groups window punches).flatMap Prod.snd).Sublist
      ((groupByBusinessDate (pair punches queried.rules) queried.rules).flatMap Prod.snd) :=
  List.filter_sublist.flatMap _

theorem mem_pair_of_group {punches : List Punch} {group : Time × List Span} {span : Span}
    (day : group ∈ queried.groups window punches) (listed : span ∈ group.2) :
    span ∈ pair punches queried.rules := by
  apply (groupByBusinessDate_perm _ queried.rules).mem_iff.mp
  exact (groups_sublist queried window punches).subset (List.mem_flatMap.mpr ⟨group, day, listed⟩)

theorem mem_spanSnapshots {snapshot : SpanSnapshot}
    (member : snapshot ∈ queried.spanSnapshots window) :
    ∃ entry ∈ queried.byPerson, ∃ date, ∃ span ∈ pair entry.2 queried.rules,
      snapshot = spanSnapshot entry.1 date span := by
  obtain ⟨entry, person, member⟩ := List.mem_flatMap.mp member
  obtain ⟨group, day, member⟩ := List.mem_flatMap.mp member
  obtain ⟨span, listed, rfl⟩ := List.mem_map.mp member
  exact ⟨entry, person, group.1, span, mem_pair_of_group day listed, rfl⟩

theorem mem_groupByBusinessDate {spans : List Span} {rules : Rules} {group : Time × List Span} {span : Span}
    (grouped : group ∈ groupByBusinessDate spans rules) (listed : span ∈ group.2) :
    businessDate span.startedAt rules = group.1 := by
  have distinct : ((groupByBusinessDate spans rules).map Prod.fst).Nodup := groupBy_distinct ..
  rw [← valuesOf_of_mem distinct grouped, groupByBusinessDate, valuesOf_groupBy, List.map_id] at listed
  exact of_decide_eq_true (List.mem_filter.mp listed).2

/-- A written span carries the date it starts on, and the window asked for that. -/
theorem mem_spanSnapshots_dated {snapshot : SpanSnapshot}
    (member : snapshot ∈ queried.spanSnapshots window) :
    ∃ entry ∈ queried.byPerson, ∃ span ∈ pair entry.2 queried.rules,
      snapshot = spanSnapshot entry.1 (businessDate span.startedAt queried.rules) span ∧
        window.requested (businessDate span.startedAt queried.rules) = true := by
  obtain ⟨entry, person, member⟩ := List.mem_flatMap.mp member
  obtain ⟨group, day, member⟩ := List.mem_flatMap.mp member
  obtain ⟨span, listed, rfl⟩ := List.mem_map.mp member
  obtain ⟨grouped, requested⟩ := List.mem_filter.mp day
  have date := mem_groupByBusinessDate grouped listed
  refine ⟨entry, person, span, mem_pair_of_group day listed, ?_, ?_⟩
  · rw [date]
  · rw [date]
    exact requested

theorem mem_daySnapshots {snapshot : DaySnapshot}
    (member : snapshot ∈ queried.daySnapshots window) :
    ∃ entry ∈ queried.byPerson, ∃ group ∈ queried.groups window entry.2,
      snapshot = queried.dayOf entry.1 group := by
  obtain ⟨entry, person, member⟩ := List.mem_flatMap.mp member
  obtain ⟨group, day, rfl⟩ := List.mem_map.mp member
  exact ⟨entry, person, group, day, rfl⟩

theorem personSpans_ids (queried : Queried) (window : Window) (entry : String × List Punch) :
    (queried.personSpans window entry).flatMap SpanSnapshot.ids =
      ((queried.groups window entry.2).flatMap Prod.snd).flatMap Span.ids := by
  simp only [Queried.personSpans, daySpans, List.flatMap_assoc, List.flatMap_map]
  rfl

theorem count_ids_personSpans (queried : Queried) (window : Window) (entry : String × List Punch)
    (id : Int) :
    ((queried.personSpans window entry).flatMap SpanSnapshot.ids).count id ≤
      (entry.2.map Punch.eventId).count id := by
  have grouped := groupByBusinessDate_perm (pair entry.2 queried.rules) queried.rules
  rw [personSpans_ids]
  calc
    _ ≤ (((groupByBusinessDate (pair entry.2 queried.rules) queried.rules).flatMap
          Prod.snd).flatMap Span.ids).count id :=
        ((groups_sublist queried window entry.2).flatMap _).count_le id
    _ = ((pair entry.2 queried.rules).flatMap Span.ids).count id :=
        (grouped.flatMap_right Span.ids).count_eq id
    _ ≤ _ := count_ids_pair entry.2 queried.rules id

theorem count_ids_entries (queried : Queried) (window : Window)
    (entries : List (String × List Punch)) (id : Int) :
    ((entries.flatMap (queried.personSpans window)).flatMap SpanSnapshot.ids).count id ≤
      ((entries.flatMap Prod.snd).map Punch.eventId).count id := by
  induction entries with
  | nil => simp
  | cons entry rest ih =>
      have first := count_ids_personSpans queried window entry id
      simp only [List.flatMap_cons, List.flatMap_append, List.map_append, List.count_append]
      omega

theorem spanSnapshots_anchored {snapshot : SpanSnapshot}
    (member : snapshot ∈ queried.spanSnapshots window) : ∃ id, snapshot.anchor = some id := by
  obtain ⟨entry, -, date, span, -, rfl⟩ := mem_spanSnapshots member
  exact Option.isSome_iff_exists.mp span.anchored

theorem spanSnapshots_hasEnd {snapshot : SpanSnapshot}
    (member : snapshot ∈ queried.spanSnapshots window) :
    (snapshot.inEventId.isSome || snapshot.outEventId.isSome) = true := by
  obtain ⟨id, anchors⟩ := spanSnapshots_anchored member
  cases arrived : snapshot.inEventId with
  | some known => rfl
  | none =>
      rw [SpanSnapshot.anchor, anchor, arrived] at anchors
      simpa using congrArg Option.isSome anchors

section

variable (loaded : Loaded queried.byPerson)
include loaded

/-- No punch anchors two of the spans written. -/
theorem spanSnapshots_ids_nodup (window : Window) :
    ((queried.spanSnapshots window).flatMap SpanSnapshot.ids).Nodup := by
  rw [List.nodup_iff_count_le_one]
  intro id
  exact (count_ids_entries queried window queried.byPerson id).trans
    (List.nodup_iff_count_le_one.mp loaded.distinct id)

theorem spanSnapshots_positive {snapshot : SpanSnapshot}
    (member : snapshot ∈ queried.spanSnapshots window) : ∀ id ∈ snapshot.ids, 0 < id := by
  intro id anchors
  have written : id ∈ (queried.spanSnapshots window).flatMap SpanSnapshot.ids :=
    List.mem_flatMap.mpr ⟨snapshot, member, anchors⟩
  have punched : id ∈ (queried.byPerson.flatMap Prod.snd).map Punch.eventId := by
    rw [← List.count_pos_iff] at written ⊢
    exact written.trans_le (count_ids_entries queried window queried.byPerson id)
  obtain ⟨punch, listed, rfl⟩ := List.mem_map.mp punched
  exact loaded.positive punch listed

theorem spanSnapshots_anchor_distinct (window : Window) :
    ((queried.spanSnapshots window).map SpanSnapshot.anchor).Nodup := by
  have apart := (List.nodup_flatMap.mp (spanSnapshots_ids_nodup loaded window)).2
  rw [List.Nodup, List.pairwise_map]
  refine apart.imp_of_mem fun {first second} left right disjoint same => ?_
  obtain ⟨id, anchored⟩ := spanSnapshots_anchored left
  exact disjoint (SpanSnapshot.mem_ids_of_anchor anchored)
    (SpanSnapshot.mem_ids_of_anchor (same ▸ anchored))

theorem spanSnapshots_key_distinct (window : Window) :
    ((queried.spanSnapshots window).map SpanSnapshot.key).Nodup := by
  have apart := spanSnapshots_anchor_distinct loaded window
  rw [List.Nodup, List.pairwise_map] at apart ⊢
  refine apart.imp_of_mem fun {first second} left right different same => ?_
  exact different (SpanSnapshot.anchor_eq_of_key same (spanSnapshots_positive loaded left)
    (spanSnapshots_positive loaded right))

/-- Spans keep the instants of their punches, which a timestamptz holds as they are. -/
theorem pair_timestamptz {entry : String × List Punch} (person : entry ∈ queried.byPerson) :
    ∀ span ∈ pair entry.2 queried.rules, span.Instants fun instant => timestamptz instant = instant :=
  pair_instants queried.rules fun punch listed =>
    loaded.aligned punch (List.mem_flatMap.mpr ⟨entry, person, listed⟩)

theorem spanSnapshots_row_view (org : Uuid) {snapshot : SpanSnapshot}
    (member : snapshot ∈ queried.spanSnapshots window) :
    (snapshot.row org).view = snapshot.view := by
  obtain ⟨entry, person, date, span, paired, rfl⟩ := mem_spanSnapshots member
  obtain ⟨started, ended⟩ := pair_timestamptz loaded person span paired
  simp only [SpanSnapshot.row, SpanRow.view, SpanSnapshot.view, SpanSnapshot.data, SpanData.view,
    spanSnapshot, SpanView.mk.injEq, true_and, and_true]
  exact ⟨started, map_timestamptz ended⟩

theorem daySnapshots_row_data (org : Uuid) {snapshot : DaySnapshot}
    (member : snapshot ∈ queried.daySnapshots window) :
    (snapshot.row org).data = snapshot.data := by
  obtain ⟨entry, person, group, day, rfl⟩ := mem_daySnapshots member
  have told := rollup_instants group.1 (queried.schedules.forPerson entry.1 group.1) queried.rules
    fun span listed => pair_timestamptz loaded person span (mem_pair_of_group day listed)
  simp only [DaySnapshot.row, DayRow.data, DaySnapshot.data, Queried.dayOf, daySnapshot,
    DayData.mk.injEq, and_true]
  exact ⟨map_timestamptz told.1, map_timestamptz told.2⟩

end

/-! ## One step -/

def Call.fetchFrom (call : Call) : Int := timestamptz (call.lower - lookbackDays * day)

def Call.fetchTo (call : Call) : Int := timestamptz (call.upper + (lookbackDays + 1) * day)

/-- What the queries of a call returned. -/
structure Call.Queries (loadLocation : String → Option Location) (call : Call) (org : Uuid)
    (queried : Queried) : Prop where
  parsed : uuidIn call.orgId = some org
  ruled : orgRules loadLocation call.sources org = .ok queried.rules
  loaded : queried.byPerson = loadPunches call.sources org call.fetchFrom call.fetchTo
  scheduled : loadSchedules call.sources org = .ok queried.schedules

variable {loadLocation : String → Option Location}

theorem Call.query_iff {call : Call} : call.query loadLocation = .ok (org, queried) ↔
    call.Queries loadLocation org queried := by
  constructor
  · intro queries
    simp only [Call.query] at queries
    split at queries
    next => cases queries
    next known =>
      obtain ⟨rules, ruled, queries⟩ := except_bind_ok_iff.mp queries
      obtain ⟨schedules, scheduled, returned⟩ := except_bind_ok_iff.mp queries
      cases returned
      exact ⟨known, ruled, rfl, scheduled⟩
  · intro queries
    obtain ⟨known, ruled, loaded, scheduled⟩ := queries
    obtain ⟨rules, byPerson, schedules⟩ := queried
    dsimp only at ruled loaded scheduled
    subst loaded
    simp only [Call.query]
    simp only [known, ruled, scheduled, bind, Except.bind, pure, Except.pure]
    rfl

theorem orgRules_ok {db : Sources} {rules : Rules}
    (found : orgRules loadLocation db org = .ok rules) :
    ∃ timezone location boundary, loadLocation timezone = some location ∧
      rules = { defaultRules location with dayBoundary := boundary } := by
  unfold orgRules at found
  split at found
  next => cases found
  next row _ =>
    dsimp only at found
    split at found
    next => cases found
    next => cases found
    next boundary location _ zone =>
      cases found
      exact ⟨row.timezone, location, _, zone, rfl⟩

theorem Call.query_loaded {call : Call} (queries : call.query loadLocation = .ok (org, queried)) :
    Loaded queried.byPerson := by
  rw [(Call.query_iff.mp queries).loaded]
  exact loaded_loadPunches ..

/-- The zone is the one the organisation names. -/
theorem Call.query_location {call : Call} (queries : call.query loadLocation = .ok (org, queried)) :
    ∃ timezone, loadLocation timezone = some queried.rules.location := by
  obtain ⟨timezone, location, boundary, zone, rules⟩ := orgRules_ok (Call.query_iff.mp queries).ruled
  rw [rules]
  exact ⟨timezone, zone⟩

theorem recompute_committed {tables next : Tables} {call : Call} {result : Result}
    (ran : recompute loadLocation tables call = .ok (next, result)) :
    ∃ org queried, call.query loadLocation = .ok (org, queried) ∧
      Committed tables next org queried (queried.window call.lower call.upper) call.orgId
        call.emittedAt := by
  obtain ⟨⟨org, queried⟩, queries, wrote⟩ := except_bind_ok_iff.mp ran
  exact ⟨org, queried, queries, transaction_committed wrote⟩

/-- A call either commits or changes nothing. -/
theorem State.step_cases {state next : State} {input : Input}
    (taken : state.step loadLocation input = some next) :
    state.clock < next.clock ∧
      (next.tables = state.tables ∨
        ∃ call org queried, input = .recompute call ∧ next.clock = call.emittedAt ∧
          call.query loadLocation = .ok (org, queried) ∧
          Committed state.tables next.tables org queried (queried.window call.lower call.upper)
            call.orgId call.emittedAt) := by
  cases input with
  | fault emittedAt =>
      simp only [State.step] at taken
      split at taken
      next => cases taken
      next later =>
        cases taken
        exact ⟨not_le.mp later, .inl rfl⟩
  | recompute call =>
      simp only [State.step] at taken
      split at taken
      next => cases taken
      next later =>
        split at taken
        next =>
          cases taken
          exact ⟨not_le.mp later, .inl rfl⟩
        next tables result ran =>
          cases taken
          obtain ⟨org, queried, queries, committed⟩ := recompute_committed ran
          exact ⟨not_le.mp later, .inr ⟨call, org, queried, rfl, rfl, queries, committed⟩⟩

end Presence.Attendance
