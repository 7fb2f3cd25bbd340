import Presence.Attendance.EngineSpec

namespace Presence.Attendance

open Presence.Data Presence.Go Presence.Gateway Presence.Postgres

/-! # When a recompute commits

The converse of what a commit wrote: if every row fits its columns and no key is
taken, by a row left in place or by another row of the call, then no statement of
the transaction fails.
-/

/-- The checks of `attendance_span` that look at one row. -/
structure SpanRow.Fits (row : SpanRow) : Prop where
  ordered : ∀ ended ∈ row.endedAt, row.startedAt ≤ ended
  duration : ∀ duration ∈ row.durationS, fitsInt4 duration = true

structure DayRow.Fits (row : DayRow) : Prop where
  total : fitsInt4 row.totalS = true
  spans : fitsInt4 row.spanCount = true

theorem insertSpan_exists {table : SpanTable} {row : SpanRow} (fits : row.Fits)
    (unused : ∀ id ∈ row.inEventId, id ∉ table.rows.filterMap SpanRow.inEventId) :
    ∃ next, insertSpan table row = .ok next := by
  have ordered : row.endedAt.any (· < row.startedAt) = false := by
    cases held : row.endedAt with
    | none => rfl
    | some ended => simpa using fits.ordered ended held
  have short : row.durationS.any (!fitsInt4 ·) = false := by
    cases held : row.durationS with
    | none => rfl
    | some duration => simpa using fits.duration duration held
  simp only [insertSpan]
  rw [ordered, short, dif_pos unused]
  exact ⟨_, rfl⟩

theorem insertDay_exists {table : Keyed DayRow.key} {row : DayRow} (fits : row.Fits)
    (unused : ∀ other ∈ table.values, other.key ≠ row.key) : ∃ next, insertDay table row = .ok next := by
  simp only [insertDay]
  rw [fits.total, fits.spans, Keyed.add, dif_pos unused]
  exact ⟨_, rfl⟩

/-! ## Keys that are free -/

structure Room (org : Uuid) (state : Rewrite) (spans : List SpanSnapshot) (days : List DaySnapshot) :
    Prop where
  spans : ((state.spans.rows ++ spans.map (SpanSnapshot.row org)).filterMap SpanRow.inEventId).Nodup
  days : ((state.days.values ++ days.map (DaySnapshot.row org)).map DayRow.key).Nodup

namespace Room

variable {org : Uuid} {start middle : Rewrite} {spans spans' : List SpanSnapshot}
  {days days' : List DaySnapshot}

theorem left (room : Room org start (spans ++ spans') (days ++ days')) : Room org start spans days where
  spans := by
    have all := room.spans
    rw [List.map_append, ← List.append_assoc, List.filterMap_append] at all
    exact (List.nodup_append.mp all).1
  days := by
    have all := room.days
    rw [List.map_append (f := DaySnapshot.row org), ← List.append_assoc, List.map_append] at all
    exact (List.nodup_append.mp all).1

theorem right (room : Room org start (spans ++ spans') (days ++ days'))
    (wrote : Wrote org start middle spans days) : Room org middle spans' days' where
  spans := by
    have all := room.spans
    rwa [List.map_append, ← List.append_assoc, ← wrote.spanRows] at all
  days := by
    have all := room.days
    rwa [List.map_append (f := DaySnapshot.row org), ← List.append_assoc, ← wrote.dayRows] at all

/-- A loop goes through if every round does where there is room for what it writes. -/
theorem foldlM_exists {α : Type} {round : Rewrite → α → Except RecomputeError Rewrite}
    (spans : α → List SpanSnapshot) (days : α → List DaySnapshot)
    (each : ∀ state item next, round state item = .ok next →
      Wrote org state next (spans item) (days item))
    {items : List α}
    (goes : ∀ item ∈ items, ∀ state, Room org state (spans item) (days item) →
      ∃ next, round state item = .ok next)
    (room : Room org start (items.flatMap spans) (items.flatMap days)) :
    ∃ final, items.foldlM round start = .ok final := by
  induction items generalizing start with
  | nil => exact ⟨start, rfl⟩
  | cons item rest ih =>
      rw [List.flatMap_cons, List.flatMap_cons] at room
      obtain ⟨next, first⟩ := goes item (List.mem_cons_self ..) start room.left
      obtain ⟨final, later⟩ := ih (fun other listed => goes other (List.mem_cons_of_mem _ listed))
        (room.right (each start item next first))
      refine ⟨final, ?_⟩
      rw [List.foldlM_cons]
      exact except_bind_ok_iff.mpr ⟨next, first, later⟩

end Room

variable {org : Uuid} {queried : Queried} {window : Window} {person : String} {date : Time}
  {start : Rewrite}

theorem writeSpan_exists {span : Span} (fits : ((spanSnapshot person date span).row org).Fits)
    (room : Room org start [spanSnapshot person date span] []) :
    ∃ final, writeSpan org person date start span = .ok final := by
  have unused : ∀ id ∈ ((spanSnapshot person date span).row org).inEventId,
      id ∉ start.spans.rows.filterMap SpanRow.inEventId := by
    intro id held known
    have apart := room.spans
    rw [List.filterMap_append] at apart
    refine (List.nodup_append.mp apart).2.2 id known id ?_ rfl
    exact List.mem_filterMap.mpr ⟨_, List.mem_singleton.mpr rfl, held⟩
  obtain ⟨spans, inserted⟩ := insertSpan_exists fits unused
  exact ⟨_, except_bind_ok_iff.mpr ⟨spans, except_mapError_ok_iff.mpr inserted, rfl⟩⟩

theorem writeDay_exists {group : Time × List Span}
    (spansFit : ∀ span ∈ group.2, ((spanSnapshot person group.1 span).row org).Fits)
    (dayFits : ((queried.dayOf person group).row org).Fits)
    (room : Room org start (daySpans person group) [queried.dayOf person group]) :
    ∃ final, writeDay org queried person start group = .ok final := by
  have each := fun state span next => @writeSpan_wrote org person group.1 state next span
  have none : group.2.flatMap (fun _ => ([] : List DaySnapshot)) = [] :=
    List.flatMap_eq_nil_iff.mpr fun _ _ => rfl
  have split : Room org start (daySpans person group ++ []) ([] ++ [queried.dayOf person group]) := by
    simpa using room
  have first : Room org start (group.2.flatMap fun span => [spanSnapshot person group.1 span])
      (group.2.flatMap fun _ => []) := by
    rw [← List.map_eq_flatMap, none]
    exact split.left
  obtain ⟨middle, looped⟩ := first.foldlM_exists _ _ each
    (fun span listed state room => writeSpan_exists (spansFit span listed) room)
  have wrote := Wrote.foldlM _ _ each looped
  rw [← List.map_eq_flatMap, none] at wrote
  have unused : ∀ other ∈ middle.days.values,
      other.key ≠ ((queried.dayOf person group).row org).key := by
    intro other known same
    have apart := (split.right wrote).days
    rw [List.map_append] at apart
    refine (List.nodup_append.mp apart).2.2 other.key (List.mem_map_of_mem known) other.key ?_ rfl
    rw [same]
    exact List.mem_map_of_mem (List.mem_singleton.mpr rfl)
  obtain ⟨days, inserted⟩ := insertDay_exists dayFits unused
  exact ⟨_, except_bind_ok_iff.mpr ⟨middle, looped,
    except_bind_ok_iff.mpr ⟨days, except_mapError_ok_iff.mpr inserted, rfl⟩⟩⟩

/-- Every row a person's punches become. -/
structure Queried.PersonFits (queried : Queried) (org : Uuid) (window : Window)
    (entry : String × List Punch) : Prop where
  spans : ∀ group ∈ queried.groups window entry.2, ∀ span ∈ group.2,
    ((spanSnapshot entry.1 group.1 span).row org).Fits
  days : ∀ group ∈ queried.groups window entry.2, ((queried.dayOf entry.1 group).row org).Fits

theorem writePerson_exists {entry : String × List Punch} (fits : queried.PersonFits org window entry)
    (room : Room org start (queried.personSpans window entry) (queried.personDays window entry)) :
    ∃ final, writePerson org queried window start entry = .ok final := by
  have daily : Room org start ((queried.groups window entry.2).flatMap (daySpans entry.1))
      ((queried.groups window entry.2).flatMap fun group => [queried.dayOf entry.1 group]) := by
    rw [← List.map_eq_flatMap]
    exact room
  obtain ⟨written, looped⟩ := daily.foldlM_exists (daySpans entry.1)
    (fun group => [queried.dayOf entry.1 group]) (fun _ _ _ => writeDay_wrote)
    (fun group day state room => writeDay_exists (fits.spans group day) (fits.days group day) room)
  exact ⟨_, except_bind_ok_iff.mpr ⟨written, looped, rfl⟩⟩

theorem writePeople_exists (fits : ∀ entry ∈ queried.byPerson, queried.PersonFits org window entry)
    (room : Room org start (queried.spanSnapshots window) (queried.daySnapshots window)) :
    ∃ final, queried.byPerson.foldlM (writePerson org queried window) start = .ok final :=
  Room.foldlM_exists (queried.personSpans window) (queried.personDays window)
    (fun _ _ _ => writePerson_wrote)
    (fun entry listed _ room => writePerson_exists (fits entry listed) room) room

/-! ## The outbox -/

theorem appendEvents_exists {events : List OutboxRow} {table : Keyed OutboxEventRow.id}
    (subjects : ∀ event ∈ events, event.hasSubject = true)
    (fresh : (table.values.map OutboxEventRow.id ++ events.map OutboxRow.eventId).Nodup) :
    ∃ next, events.foldlM (fun outbox event => insertOutboxEvent outbox ⟨org, event⟩) table = .ok next := by
  induction events generalizing table with
  | nil => exact ⟨table, rfl⟩
  | cons event rest ih =>
      have unused : ∀ old ∈ table.values, old.id ≠ OutboxEventRow.id ⟨org, event⟩ := by
        intro old known same
        refine (List.nodup_append.mp fresh).2.2 old.id (List.mem_map_of_mem known) old.id ?_ rfl
        rw [same]
        exact List.mem_cons_self ..
      obtain ⟨next, inserted⟩ : ∃ next, insertOutboxEvent table ⟨org, event⟩ = .ok next := by
        simp only [insertOutboxEvent]
        rw [subjects event (List.mem_cons_self ..), Keyed.add, dif_pos unused]
        exact ⟨_, rfl⟩
      have others : (next.values.map OutboxEventRow.id ++ rest.map OutboxRow.eventId).Nodup := by
        rw [insertOutboxEvent_ok inserted, List.map_append, List.append_assoc]
        exact fresh
      obtain ⟨final, later⟩ :=
        ih (fun other listed => subjects other (List.mem_cons_of_mem _ listed)) others
      refine ⟨final, ?_⟩
      rw [List.foldlM_cons]
      exact except_bind_ok_iff.mpr ⟨next, inserted, later⟩

theorem subject_mem_diff {α κ : Type} [DecidableEq κ] {key : α → κ} {same : α → α → Bool}
    {before after : Keyed key} {change : Data.Change α} (member : change ∈ Keyed.diff same before after) :
    change.subject ∈ after.values ∨ change.subject ∈ before.values := by
  rcases List.mem_append.mp member with upserted | removed
  · obtain ⟨next, kept, rfl⟩ := List.mem_map.mp upserted
    exact .inl (List.mem_of_mem_filter kept)
  · obtain ⟨prev, kept, rfl⟩ := List.mem_map.mp removed
    exact .inr (List.mem_of_mem_filter kept)

/-- The ids are drawn one after the other. -/
theorem map_newId_zipIdx {α : Type} (items : List α) (newId : Nat → Uuid) :
    items.zipIdx.map (fun item => newId item.2) = (List.range items.length).map newId := by
  have indices := items.zipIdx_map_snd 0
  rw [← List.range_eq_range'] at indices
  rw [← indices, List.map_map]
  rfl

/-- How many events a call appends. -/
def Tables.eventCount (tables : Tables) (org : Uuid) (queried : Queried) (window : Window) : Nat :=
  (Keyed.diff SpanSnapshot.equal (loadSpanSnapshots tables.spans org window)
      (.ofList (queried.spanSnapshots window))).length +
    (Keyed.diff DaySnapshot.equal (loadDaySnapshots tables.days org window)
      (.ofList (queried.daySnapshots window))).length

theorem diff_eventIds (orgId : String) (beforeSpans afterSpans : Keyed SpanSnapshot.key)
    (beforeDays afterDays : Keyed DaySnapshot.key) (emittedAt : Int) (newId : Nat → Uuid) :
    let spanEvents := diffSpans orgId beforeSpans afterSpans emittedAt newId
    (spanEvents ++ diffDays orgId beforeDays afterDays emittedAt
        fun index => newId (spanEvents.length + index)).map OutboxRow.eventId =
      (List.range ((Keyed.diff SpanSnapshot.equal beforeSpans afterSpans).length +
        (Keyed.diff DaySnapshot.equal beforeDays afterDays).length)).map newId := by
  intro spanEvents
  have count : spanEvents.length = (Keyed.diff SpanSnapshot.equal beforeSpans afterSpans).length := by
    simp [spanEvents, diffSpans]
  have spans : (diffSpans orgId beforeSpans afterSpans emittedAt newId).map OutboxRow.eventId =
      (List.range (Keyed.diff SpanSnapshot.equal beforeSpans afterSpans).length).map newId := by
    rw [← map_newId_zipIdx, diffSpans, List.map_map]
    rfl
  have days : (diffDays orgId beforeDays afterDays emittedAt
        fun index => newId (spanEvents.length + index)).map OutboxRow.eventId =
      (List.range (Keyed.diff DaySnapshot.equal beforeDays afterDays).length).map
        fun index => newId (spanEvents.length + index) := by
    rw [← map_newId_zipIdx, diffDays, List.map_map]
    rfl
  rw [List.map_append, spans, days, List.range_add, List.map_append, List.map_map, ← count]
  rfl

theorem diffSpans_hasSubject {orgId : String} {before after : Keyed SpanSnapshot.key} {emittedAt : Int}
    {newId : Nat → Uuid} (anchored : ∀ span, span ∈ after.values ∨ span ∈ before.values →
      (span.inEventId.isSome || span.outEventId.isSome) = true) :
    ∀ event ∈ diffSpans orgId before after emittedAt newId, event.hasSubject = true := by
  intro event member
  obtain ⟨⟨change, index⟩, listed, rfl⟩ := List.mem_map.mp member
  exact anchored change.subject (subject_mem_diff (List.fst_mem_of_mem_zipIdx listed))

theorem diffDays_hasSubject {orgId : String} {before after : Keyed DaySnapshot.key} {emittedAt : Int}
    {newId : Nat → Uuid} :
    ∀ event ∈ diffDays orgId before after emittedAt newId, event.hasSubject = true := by
  intro event member
  obtain ⟨⟨change, index⟩, listed, rfl⟩ := List.mem_map.mp member
  rfl

/-! ## The transaction -/

theorem transaction_exists {tables : Tables} {call : Call}
    (anchored : ∀ row ∈ tables.spans.rows, (row.inEventId.isSome || row.outEventId.isSome) = true)
    (fits : ∀ entry ∈ queried.byPerson,
      queried.PersonFits org (queried.window call.lower call.upper) entry)
    (spans : (((clearSpans tables.spans org (queried.window call.lower call.upper)).rows ++
      (queried.spanSnapshots (queried.window call.lower call.upper)).map
        (SpanSnapshot.row org)).filterMap SpanRow.inEventId).Nodup)
    (days : (((clearDays tables.days org (queried.window call.lower call.upper)).values ++
      (queried.daySnapshots (queried.window call.lower call.upper)).map
        (DaySnapshot.row org)).map DayRow.key).Nodup)
    (fresh : (tables.outbox.values.map OutboxEventRow.id ++
      (List.range (tables.eventCount org queried (queried.window call.lower call.upper))).map
        call.newId).Nodup) :
    ∃ outcome, transaction tables org queried call = .ok outcome := by
  have room : Room org ⟨clearSpans tables.spans org (queried.window call.lower call.upper),
      clearDays tables.days org (queried.window call.lower call.upper), .empty, .empty,
      ⟨0, 0, 0, 0, 0⟩⟩ (queried.spanSnapshots (queried.window call.lower call.upper))
      (queried.daySnapshots (queried.window call.lower call.upper)) := ⟨spans, days⟩
  obtain ⟨written, wrote⟩ := writePeople_exists fits room
  have loop := writePeople_wrote wrote
  have subjects : ∀ span, span ∈ written.afterSpans.values ∨
      span ∈ (loadSpanSnapshots tables.spans org (queried.window call.lower call.upper)).values →
      (span.inEventId.isSome || span.outEventId.isSome) = true := by
    intro span found
    rcases found with after | before
    · rw [loop.afterSpans] at after
      exact spanSnapshots_hasEnd ((Keyed.mem_of_mem_foldl_set after).resolve_left (by simp [Keyed.empty]))
    · obtain ⟨row, stored, -, rfl⟩ := mem_loadSpanSnapshots before
      exact anchored row stored
  have ids := diff_eventIds call.orgId
    (loadSpanSnapshots tables.spans org (queried.window call.lower call.upper)) written.afterSpans
    (loadDaySnapshots tables.days org (queried.window call.lower call.upper)) written.afterDays
    call.emittedAt call.newId
  have drawn : (Keyed.diff SpanSnapshot.equal
        (loadSpanSnapshots tables.spans org (queried.window call.lower call.upper))
        written.afterSpans).length +
      (Keyed.diff DaySnapshot.equal
        (loadDaySnapshots tables.days org (queried.window call.lower call.upper))
        written.afterDays).length =
      tables.eventCount org queried (queried.window call.lower call.upper) := by
    rw [loop.afterSpans, loop.afterDays]
    rfl
  rw [drawn] at ids
  obtain ⟨outbox, appended⟩ := @appendEvents_exists org _ tables.outbox
    (List.forall_mem_append.mpr ⟨diffSpans_hasSubject subjects, diffDays_hasSubject⟩)
    (ids ▸ fresh)
  exact ⟨_, except_bind_ok_iff.mpr ⟨written, wrote,
    except_bind_ok_iff.mpr ⟨outbox, except_mapError_ok_iff.mpr appended, rfl⟩⟩⟩

end Presence.Attendance
