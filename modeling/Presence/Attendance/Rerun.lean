import Presence.Attendance.Durations
import Presence.Attendance.Records

namespace Presence.Attendance

open Presence.Data Presence.Go Presence.Gateway Presence.Postgres

/-! # Recomputing again

A window is cleared by business date and the unique index of `in_event_id` knows no
dates.  So a recompute runs into a row of an earlier one where the arrival of that row
has moved into the window since, by an edited boundary or an amended time, and the row
itself is still dated outside.  Nothing else stands in its way.
-/

/-- Midnights exist and follow one another: no clock change falls on one. -/
structure Steady (location : Location) : Prop where
  prints : ∀ date, (location.midnight date).date = date
  ascending : ∀ first second, first < second →
    (location.midnight first).instant < (location.midnight second).instant

/-- No time of day is 24:00. -/
structure ScheduleRow.Readable (row : ScheduleRow) : Prop where
  dayBoundary : row.dayBoundary < day
  expectedIn : row.expectedIn < day
  expectedOut : row.expectedOut < day

/-- The business date on which a stored event starts a span. -/
def Sources.startDate (db : Sources) (rules : Rules) (id : Int) : Option Int :=
  match db.punchEvent.find? (fun event => (event.id : Int) = id) with
  | none => none
  | some event =>
      match loadPunch db event with
      | none => none
      | some (_, punch) =>
          if punch.direction = .in then some (businessDate punch.instant rules).date else none

section

variable (loadLocation : String → Option Location)

/-- The rows whose arrivals now fall into the window are rows that it clears. -/
def Request.ClearsMoved (request : Request) (records : Records) : Prop :=
  match (request.call records.sources).query loadLocation with
  | .error _ => True
  | .ok (org, queried) =>
      ∀ row ∈ records.tables.spans.rows, row.orgId = org → ∀ id ∈ row.inEventId,
        ∀ date ∈ records.sources.startDate queried.rules id,
          (queried.window request.lower request.upper).covers date = true →
            (queried.window request.lower request.upper).covers row.businessDate = true

/-- The ids drawn for the events of the call are new. -/
def Request.DrawsNew (request : Request) (records : Records) : Prop :=
  match (request.call records.sources).query loadLocation with
  | .error _ => True
  | .ok (org, queried) =>
      (records.tables.outbox.values.map OutboxEventRow.id ++
        (List.range (records.tables.eventCount org queried
          (queried.window request.lower request.upper))).map request.newId).Nodup

end

section

variable (home : String → Uuid)

/-- Persons punch in the organisation they belong to, at times their columns can hold. -/
def Records.Orderly (records : Records) : Occurrence → Prop
  | .ingest row =>
      Storable row.effectiveAt ∧ (∀ person ∈ row.personId, home (uuidOut person) = row.orgId) ∧
        records.sources.punchEvent.length < 2 ^ 31 - 1
  | .amend row =>
      (∀ instant ∈ row.newEffectiveAt, Storable instant) ∧
        ∀ person ∈ row.newPersonId, ∀ event ∈ records.sources.punchEvent,
          event.id = row.punchEventId → home (uuidOut person) = event.orgId
  | .reschedule schedule _ => ∀ row ∈ schedule, row.Readable
  | .recompute _ => True

/-- What the sources hold. -/
structure Sources.Sound (organization : List OrganizationRow) (db : Sources) : Prop where
  organization : db.organization = organization
  readable : ∀ row ∈ db.schedule, row.Readable
  few : db.punchEvent.length < 2 ^ 31
  recorded : ∀ event ∈ db.punchEvent, Storable event.effectiveAt
  corrected : ∀ row ∈ db.punchAmendment, ∀ instant ∈ row.newEffectiveAt, Storable instant
  persons : ∀ event ∈ db.punchEvent, ∀ person ∈ event.personId, home (uuidOut person) = event.orgId
  reassigned : ∀ row ∈ db.punchAmendment, ∃ event ∈ db.punchEvent, event.id = row.punchEventId ∧
    ∀ person ∈ row.newPersonId, home (uuidOut person) = event.orgId

/-- What the tables hold. -/
structure Tables.Sound (db : Sources) (tables : Tables) : Prop where
  known : ∀ row ∈ tables.spans.rows, ∀ id ∈ row.inEventId,
    ∃ event ∈ db.punchEvent, (event.id : Int) = id ∧ event.orgId = row.orgId
  anchored : ∀ row ∈ tables.spans.rows, (row.inEventId.isSome || row.outEventId.isSome) = true
  lodged : ∀ row ∈ tables.days.values, home row.personId = row.orgId

end

variable {loadLocation : String → Option Location} {home : String → Uuid}
  {organization : List OrganizationRow} {db : Sources} {org : Uuid} {rules : Rules} {person : String}
  {punch : Punch} {event : PunchEventRow}

/-! ## Dates -/

theorem Steady.le_of_le {location : Location} (steady : Steady location) {first second : Int}
    (le : (location.midnight first).instant ≤ (location.midnight second).instant) : first ≤ second := by
  by_contra later
  have before := steady.ascending second first (by omega)
  omega

theorem Steady.midnight_le {location : Location} (steady : Steady location) {first second : Int}
    (le : first ≤ second) : (location.midnight first).instant ≤ (location.midnight second).instant := by
  rcases Int.le_iff_lt_or_eq.mp le with before | rfl
  · exact le_of_lt (steady.ascending first second before)
  · exact le_refl _

/-- A date that was asked for is one that was cleared. -/
theorem Steady.covers_of_requested (steady : Steady rules.location) {lower upper instant : Int}
    (requested : (Window.mk (businessDate lower rules) (businessDate upper rules)).requested
      (businessDate instant rules) = true) :
    (Window.mk (businessDate lower rules) (businessDate upper rules)).covers
      (businessDate instant rules).date = true := by
  rw [Window.requested, decide_eq_true_iff] at requested
  rw [Window.covers, decide_eq_true_iff]
  unfold businessDate at requested ⊢
  dsimp only at requested ⊢
  rw [steady.prints, steady.prints, steady.prints]
  exact ⟨steady.le_of_le requested.1, steady.le_of_le requested.2⟩

/-- Business dates that print alike are the same. -/
theorem Steady.businessDate_eq (steady : Steady rules.location) {first second : Int}
    (same : (businessDate first rules).date = (businessDate second rules).date) :
    businessDate first rules = businessDate second rules := by
  unfold businessDate at same ⊢
  dsimp only at same ⊢
  rw [steady.prints, steady.prints] at same
  rw [same]

theorem steady_fixed (offset : Int) : Steady (.fixed offset) where
  prints := fun date => by
    rw [Location.midnight_fixed]
    simp [Time.date, Int.mul_ediv_cancel _ (show day ≠ 0 by decide)]
  ascending := fun earlier later before => by
    rw [Location.midnight_fixed, Location.midnight_fixed]
    dsimp only
    simp only [day, hour, minute, second, millisecond]
    omega

theorem AmendedTo.startDate (amended : AmendedTo db org event person punch)
    (stored : event ∈ db.punchEvent) (arriving : punch.direction = .in) (rules : Rules) :
    db.startDate rules punch.eventId = some (businessDate punch.instant rules).date := by
  obtain ⟨-, -, loaded⟩ := loadPunch_iff.mpr amended
  have distinct : (db.punchEvent.map fun event => (event.id : Int)).Nodup := by
    have mapped := db.primaryKey.map Int.ofNat_injective
    rwa [List.map_map] at mapped
  rw [Sources.startDate, amended.eventId, find_of_mem distinct stored]
  simp only [loaded, arriving, ↓reduceIte]

/-! ## Queries -/

theorem scanTime_of_lt {column : Int} (early : column < day) : scanTime column = some column :=
  if_pos early

theorem loadSchedules_exists (readable : ∀ row ∈ db.schedule, row.Readable) :
    ∃ schedules, loadSchedules db org = .ok schedules := by
  have fine : ∀ item ∈ (db.personSchedule.insertionSort
      (fun first second => second.effectiveFrom ≤ first.effectiveFrom)).filterMap (loadSchedule db org),
      ∃ value, item = .ok value := by
    intro item member
    obtain ⟨row, -, found⟩ := List.mem_filterMap.mp member
    simp only [loadSchedule, Option.bind_eq_bind, Option.bind_eq_some_iff] at found
    obtain ⟨schedule, listed, found⟩ := found
    have times := readable schedule (List.mem_of_find?_eq_some listed)
    rw [scanTime_of_lt times.expectedIn, scanTime_of_lt times.expectedOut] at found
    cases found
    exact ⟨_, rfl⟩
  obtain ⟨values, loaded⟩ := mapM_id_exists fine
  exact ⟨_, except_bind_ok_iff.mpr ⟨values, loaded, rfl⟩⟩

theorem orgRules_exists (readable : ∀ row ∈ db.schedule, row.Readable)
    (loads : ∀ row ∈ db.organization, ∃ location, loadLocation row.timezone = some location)
    (known : org ∈ db.organization.map OrganizationRow.id) :
    ∃ rules, orgRules loadLocation db org = .ok rules := by
  obtain ⟨row, found⟩ : ∃ row, db.organization.find? (·.id = org) = some row := by
    obtain ⟨row, listed, rfl⟩ := List.mem_map.mp known
    cases found : db.organization.find? (·.id = row.id) with
    | none => simpa using List.find?_eq_none.mp found row listed
    | some other => exact ⟨other, rfl⟩
  obtain ⟨location, zone⟩ := loads row (List.mem_of_find?_eq_some found)
  have early : ((db.schedule.find? (·.orgId = org)).map ScheduleRow.dayBoundary).getD (4 * hour) < day := by
    cases scheduled : db.schedule.find? (·.orgId = org) with
    | none => decide
    | some schedule => exact (readable schedule (List.mem_of_find?_eq_some scheduled)).dayBoundary
  simp only [orgRules]
  rw [found]
  dsimp only
  rw [scanTime_of_lt early, zone]
  exact ⟨_, rfl⟩

theorem orgRules_location (ruled : orgRules loadLocation db org = .ok rules) :
    ∃ row ∈ db.organization, loadLocation row.timezone = some rules.location := by
  unfold orgRules at ruled
  split at ruled
  next => cases ruled
  next row found =>
    dsimp only at ruled
    split at ruled
    next => cases ruled
    next => cases ruled
    next boundary location _ zone =>
      cases ruled
      exact ⟨row, List.mem_of_find?_eq_some found, zone⟩

/-- The queries of a call for an organisation that exists go through. -/
theorem Call.query_exists {call : Call} (parsed : uuidIn call.orgId = some org)
    (readable : ∀ row ∈ call.sources.schedule, row.Readable)
    (loads : ∀ row ∈ call.sources.organization, ∃ location, loadLocation row.timezone = some location)
    (known : org ∈ call.sources.organization.map OrganizationRow.id) :
    ∃ queried, call.Queries loadLocation org queried := by
  obtain ⟨rules, ruled⟩ := orgRules_exists readable loads known
  obtain ⟨schedules, scheduled⟩ := @loadSchedules_exists call.sources org readable
  exact ⟨⟨rules, _, schedules⟩, parsed, ruled, rfl, scheduled⟩

/-! ## What was loaded -/

theorem Sources.amended_mem_event {α : Type} {number : Nat} {field : PunchAmendmentRow → Option α}
    {value : α} (found : db.amended number field = some value) :
    ∃ row ∈ db.punchAmendment, row.punchEventId = number ∧ field row = some value := by
  obtain ⟨row, member, set⟩ := List.mem_filterMap.mp (List.mem_of_head? found)
  rw [Sources.amendments, List.mem_insertionSort, List.mem_filter, decide_eq_true_iff] at member
  exact ⟨row, member.1, member.2, set⟩

namespace Sources.Sound

variable (sound : db.Sound home organization)
include sound

theorem storable (amended : AmendedTo db org event person punch) (stored : event ∈ db.punchEvent) :
    Storable punch.instant := by
  rw [amended.instant]
  cases corrected : db.amended event.id PunchAmendmentRow.newEffectiveAt with
  | none => exact sound.recorded event stored
  | some instant =>
      obtain ⟨row, listed, -, set⟩ := Sources.amended_mem_event corrected
      exact sound.corrected row listed instant set

theorem home_eq (amended : AmendedTo db org event person punch) (stored : event ∈ db.punchEvent) :
    home person = org := by
  obtain ⟨recorded, known, rfl⟩ := amended.person
  rw [← amended.org]
  cases reassigned : db.amended event.id PunchAmendmentRow.newPersonId with
  | none => exact sound.persons event stored recorded known
  | some someone =>
      obtain ⟨row, listed, about, set⟩ := Sources.amended_mem_event reassigned
      obtain ⟨other, there, same, lodged⟩ := sound.reassigned row listed
      have equal : other = event :=
        List.inj_on_of_nodup_map db.primaryKey there stored (same.trans about)
      rw [← equal]
      exact lodged someone set

variable {fetchFrom fetchTo : Int} {entry : String × List Punch}

theorem entry_storable (listed : entry ∈ loadPunches db org fetchFrom fetchTo) :
    ∀ punch ∈ entry.2, Storable punch.instant := by
  intro punch member
  obtain ⟨row, stored, amended, -⟩ := fed_loadPunches.mp ⟨entry, listed, rfl, member⟩
  exact sound.storable amended stored

theorem entry_home (listed : entry ∈ loadPunches db org fetchFrom fetchTo) : home entry.1 = org := by
  obtain ⟨⟨person, punch⟩, loaded, same⟩ := groupBy_name _ _ _ entry listed
  obtain ⟨row, stored, amended, -⟩ := mem_loadedPunches_iff.mp loaded
  rw [same]
  exact sound.home_eq amended stored

theorem entry_few (listed : entry ∈ loadPunches db org fetchFrom fetchTo) : entry.2.length < 2 ^ 31 := by
  have inside : entry.2.Sublist ((loadPunches db org fetchFrom fetchTo).flatMap Prod.snd) := by
    rw [List.flatMap_def]
    exact List.sublist_flatten_of_mem (List.mem_map_of_mem listed)
  have grouped : ((loadPunches db org fetchFrom fetchTo).flatMap Prod.snd).Perm
      ((loadedPunches db org fetchFrom fetchTo).map Prod.snd) := groupBy_perm _ _ _
  have counted : (loadedPunches db org fetchFrom fetchTo).length ≤ db.punchEvent.length := by
    simp only [loadedPunches]
    apply (List.length_filterMap_le _ _).trans
    rw [List.length_insertionSort]
    exact List.length_filter_le _ _
  have few := sound.few
  have length := inside.length_le
  rw [grouped.length_eq, List.length_map] at length
  omega

end Sources.Sound

/-! ## Room for every row -/

section

variable {queried : Queried} {call : Call} {tables : Tables}
  (queries : call.Queries loadLocation org queried) (steady : Steady queried.rules.location)

theorem groups_distinct (window : Window) (punches : List Punch) :
    ((queried.groups window punches).map Prod.fst).Nodup :=
  (groupBy_distinct _ _ _).sublist (List.filter_sublist.map _)

theorem dayOf_key (person : String) (group : Time × List Span) :
    ((queried.dayOf person group).row org).key = ⟨person, group.1.date⟩ := by
  change DayKey.mk person (rollup group.1 group.2 _ queried.rules).businessDate.date = _
  rw [rollup_businessDate]

theorem date_of_group {window : Window} {punches : List Punch} {group : Time × List Span}
    (day : group ∈ queried.groups window punches) :
    ∃ instant, group.1 = businessDate instant queried.rules ∧ window.requested group.1 = true := by
  obtain ⟨grouped, requested⟩ := List.mem_filter.mp day
  obtain ⟨span, -, date⟩ := groupBy_name _ _ _ group grouped
  exact ⟨span.startedAt, date, requested⟩

include steady in
theorem personDays_distinct (window : Window) (entry : String × List Punch) :
    ((queried.personDays window entry).map fun snapshot => (snapshot.row org).key).Nodup := by
  rw [Queried.personDays, List.map_map]
  have apart := @groups_distinct queried window entry.2
  rw [List.Nodup, List.pairwise_map] at apart ⊢
  refine apart.imp_of_mem fun {first second} left right different same => different ?_
  obtain ⟨instant, here, -⟩ := date_of_group left
  obtain ⟨other, there, -⟩ := date_of_group right
  rw [Function.comp_apply, Function.comp_apply, dayOf_key, dayOf_key] at same
  have dates : first.1.date = second.1.date := congrArg DayKey.businessDate same
  rw [here, there] at dates ⊢
  exact steady.businessDate_eq dates

include queries steady in
theorem daySnapshots_keys_distinct (window : Window) :
    ((queried.daySnapshots window).map fun snapshot => (snapshot.row org).key).Nodup := by
  have names : (queried.byPerson.map Prod.fst).Nodup := by
    rw [queries.loaded]
    exact loadPunches_names ..
  rw [Queried.daySnapshots, List.map_flatMap]
  refine List.nodup_flatMap.mpr ⟨fun entry _ => personDays_distinct steady window entry, ?_⟩
  rw [List.Nodup, List.pairwise_map] at names
  refine names.imp fun {first second} different key left right => different ?_
  have person : ∀ entry : String × List Punch, key ∈ (queried.personDays window entry).map
      (fun snapshot => (snapshot.row org).key) → key.personId = entry.1 := by
    intro entry member
    obtain ⟨snapshot, listed, rfl⟩ := List.mem_map.mp member
    obtain ⟨group, -, rfl⟩ := List.mem_map.mp listed
    rw [dayOf_key]
  rw [← person first left, ← person second right]

theorem spanSnapshots_arrivals_distinct (loaded : Loaded queried.byPerson) (window : Window) :
    (((queried.spanSnapshots window).map (SpanSnapshot.row org)).filterMap SpanRow.inEventId).Nodup := by
  have apart := (List.nodup_flatMap.mp (spanSnapshots_ids_nodup loaded window)).2
  rw [List.filterMap_map, List.Nodup, List.pairwise_filterMap]
  refine apart.imp fun {first second} disjoint id left other right same => ?_
  apply disjoint (List.mem_append_left _ (Option.mem_toList.mpr left))
  rw [same]
  exact List.mem_append_left _ (Option.mem_toList.mpr right)

section

variable (sound : tables.Sound home call.sources)
include queries sound

/-- An arrival that is written and was kept had moved into the window. -/
theorem arrival_moved {row : SpanRow} {snapshot : SpanSnapshot} {number : Int}
    (steady : Steady queried.rules.location) (stored : row ∈ tables.spans.rows)
    (written : snapshot ∈ queried.spanSnapshots (queried.window call.lower call.upper))
    (old : row.inEventId = some number) (new : snapshot.inEventId = some number) :
    row.orgId = org ∧ ∃ date ∈ call.sources.startDate queried.rules number,
      (queried.window call.lower call.upper).covers date = true := by
  obtain ⟨entry, listed, span, paired, rfl, requested⟩ := mem_spanSnapshots_dated written
  obtain ⟨punch, held, named, arriving, started⟩ := inEvent_of_mem_pair paired new
  rw [queries.loaded] at listed
  obtain ⟨event, there, amended, -⟩ := fed_loadPunches.mp ⟨entry, listed, rfl, held⟩
  obtain ⟨known, here, same, lodged⟩ := sound.known row stored number old
  have equal : known = event := List.inj_on_of_nodup_map call.sources.primaryKey here there
    (Int.ofNat_inj.mp (same.trans (named.symm.trans amended.eventId)))
  have date := amended.startDate there arriving queried.rules
  rw [named, started] at date
  refine ⟨?_, _, date, steady.covers_of_requested requested⟩
  rw [← lodged, equal, amended.org]

include steady

theorem spans_room
    (clears : ∀ row ∈ tables.spans.rows, row.orgId = org → ∀ number ∈ row.inEventId,
      ∀ date ∈ call.sources.startDate queried.rules number,
        (queried.window call.lower call.upper).covers date = true →
          (queried.window call.lower call.upper).covers row.businessDate = true) :
    (((clearSpans tables.spans org (queried.window call.lower call.upper)).rows ++
      (queried.spanSnapshots (queried.window call.lower call.upper)).map
        (SpanSnapshot.row org)).filterMap SpanRow.inEventId).Nodup := by
  have loaded : Loaded queried.byPerson := Call.query_loaded (Call.query_iff.mpr queries)
  rw [List.filterMap_append]
  refine List.nodup_append.mpr ⟨(clearSpans ..).inEventIdx, spanSnapshots_arrivals_distinct loaded _, ?_⟩
  intro number old other new same
  obtain ⟨row, kept, held⟩ := List.mem_filterMap.mp old
  obtain ⟨inserted, listed, anchors⟩ := List.mem_filterMap.mp new
  obtain ⟨snapshot, written, rfl⟩ := List.mem_map.mp listed
  obtain ⟨stored, outside⟩ := List.mem_filter.mp kept
  obtain ⟨owner, date, started, covered⟩ :=
    arrival_moved queries sound steady stored written held (same ▸ anchors)
  have inScope : row.inScope org (queried.window call.lower call.upper) = true :=
    Window.selects_iff.mpr ⟨owner, clears row stored owner number held date started covered⟩
  rw [inScope] at outside
  cases outside

theorem days_room (homes : ∀ entry ∈ queried.byPerson, home entry.1 = org) :
    (((clearDays tables.days org (queried.window call.lower call.upper)).values ++
      (queried.daySnapshots (queried.window call.lower call.upper)).map
        (DaySnapshot.row org)).map DayRow.key).Nodup := by
  rw [List.map_append, List.map_map]
  refine List.nodup_append.mpr ⟨(clearDays ..).distinct, daySnapshots_keys_distinct queries steady _, ?_⟩
  intro key old other new same
  obtain ⟨row, kept, rfl⟩ := List.mem_map.mp old
  obtain ⟨snapshot, written, rfl⟩ := List.mem_map.mp new
  obtain ⟨stored, outside⟩ := Keyed.mem_filter.mp kept
  obtain ⟨entry, listed, group, day, rfl⟩ := mem_daySnapshots written
  obtain ⟨instant, date, requested⟩ := date_of_group day
  rw [Function.comp_apply, dayOf_key] at same
  have person : row.personId = entry.1 := congrArg DayKey.personId same
  have dates : row.businessDate = group.1.date := congrArg DayKey.businessDate same
  have owner : row.orgId = org := by
    rw [← sound.lodged row stored, person]
    exact homes entry listed
  rw [date] at requested
  have covered := steady.covers_of_requested requested
  rw [← date, ← dates] at covered
  have inScope : row.inScope org (queried.window call.lower call.upper) = true :=
    Window.selects_iff.mpr ⟨owner, covered⟩
  rw [inScope] at outside
  cases outside

end

/-- What a commit leaves is as sound as what it found. -/
theorem Tables.Sound.committed {next : Tables} {orgId : String} {emittedAt : Int} {window : Window}
    (sound : tables.Sound home call.sources) (queries : call.Queries loadLocation org queried)
    (homes : ∀ entry ∈ queried.byPerson, home entry.1 = org)
    (committed : Committed tables next org queried window orgId emittedAt) :
    next.Sound home call.sources := by
  constructor
  · intro row listed number held
    rcases committed.mem_spans.mp listed with ⟨old, -⟩ | ⟨snapshot, written, rfl⟩
    · exact sound.known row old number held
    · obtain ⟨entry, person, span, paired, rfl, -⟩ := mem_spanSnapshots_dated written
      obtain ⟨punch, fed, named, -⟩ := inEvent_of_mem_pair paired held
      rw [queries.loaded] at person
      obtain ⟨event, stored, amended, -⟩ := fed_loadPunches.mp ⟨entry, person, rfl, fed⟩
      exact ⟨event, stored, amended.eventId.symm.trans named, amended.org⟩
  · intro row listed
    rcases committed.mem_spans.mp listed with ⟨old, -⟩ | ⟨snapshot, written, rfl⟩
    · exact sound.anchored row old
    · exact spanSnapshots_hasEnd written
  · intro row listed
    rcases committed.mem_days.mp listed with ⟨old, -⟩ | ⟨snapshot, written, rfl⟩
    · exact sound.lodged row old
    · obtain ⟨entry, person, group, -, rfl⟩ := mem_daySnapshots written
      exact homes entry person

end

/-! ## Runs -/

structure Records.Sound (home : String → Uuid) (organization : List OrganizationRow) (records : Records) :
    Prop where
  sources : records.sources.Sound home organization
  tables : records.tables.Sound home records.sources

namespace Records.Sound

variable {records next : Records}

theorem ingest {row : PunchEventRow} (sound : records.Sound home organization)
    (orderly : records.Orderly home (.ingest row)) (admitted : records.sources.Admits row) :
    Sound home organization
      { records with sources := records.sources.ingest row admitted } := by
  obtain ⟨storable, lodged, few⟩ := orderly
  obtain ⟨sources, tables⟩ := sound
  constructor
  · refine ⟨sources.organization, sources.readable, ?_,
      Sources.forall_mem_concat sources.recorded storable, sources.corrected,
      Sources.forall_mem_concat sources.persons lodged, ?_⟩
    · change (records.sources.punchEvent ++ [row]).length < _
      rw [List.length_append, List.length_singleton]
      omega
    · intro amendment listed
      obtain ⟨event, stored, about, held⟩ := sources.reassigned amendment listed
      exact ⟨event, List.mem_append_left _ stored, about, held⟩
  · refine ⟨?_, tables.anchored, tables.lodged⟩
    intro span listed number held
    obtain ⟨event, stored, known⟩ := tables.known span listed number held
    exact ⟨event, List.mem_append_left _ stored, known⟩

theorem amend {row : PunchAmendmentRow} (sound : records.Sound home organization)
    (orderly : records.Orderly home (.amend row))
    (about : row.punchEventId ∈ records.sources.punchEvent.map PunchEventRow.id)
    (aligned : ∀ amended ∈ row.newEffectiveAt, timestamptz amended = amended) :
    Sound home organization
      { records with sources := records.sources.amend row aligned } := by
  obtain ⟨storable, lodged⟩ := orderly
  obtain ⟨sources, tables⟩ := sound
  obtain ⟨event, stored, same⟩ := List.mem_map.mp about
  refine ⟨⟨sources.organization, sources.readable, sources.few, sources.recorded,
    Sources.forall_mem_concat sources.corrected storable, sources.persons,
    Sources.forall_mem_concat sources.reassigned ?_⟩,
    tables.known, tables.anchored, tables.lodged⟩
  exact ⟨event, stored, same, fun person held => lodged person held event stored same⟩

theorem reschedule {schedule : List ScheduleRow} {personSchedule : List PersonScheduleRow}
    (sound : records.Sound home organization)
    (orderly : records.Orderly home (.reschedule schedule personSchedule)) :
    Sound home organization
      { records with sources := { records.sources with schedule, personSchedule } } := by
  obtain ⟨sources, tables⟩ := sound
  exact ⟨⟨sources.organization, orderly, sources.few, sources.recorded, sources.corrected,
    sources.persons, sources.reassigned⟩, tables.known, tables.anchored, tables.lodged⟩

theorem homes {request : Request} {queried : Queried}
    (sound : records.Sound home organization)
    (queries : (request.call records.sources).Queries loadLocation org queried) :
    ∀ entry ∈ queried.byPerson, home entry.1 = org := by
  intro entry listed
  rw [queries.loaded] at listed
  exact sound.sources.entry_home listed

theorem step {occurrence : Occurrence} (sound : records.Sound home organization)
    (orderly : records.Orderly home occurrence)
    (stepped : records.step loadLocation occurrence = some next) :
    next.Sound home organization := by
  cases occurrence with
  | ingest row =>
      obtain ⟨admitted, rfl⟩ := step_ingest stepped
      exact sound.ingest orderly admitted
  | amend row =>
      simp only [Records.step] at stepped
      split at stepped
      next about =>
        split at stepped
        next aligned =>
          cases stepped
          exact sound.amend orderly about aligned
        next => cases stepped
      next => cases stepped
  | reschedule schedule personSchedule =>
      cases stepped
      exact sound.reschedule orderly
  | recompute request =>
      rcases step_recompute stepped with rfl | ⟨same, org, queried, queries, committed⟩
      · exact sound
      · obtain ⟨sources, tables⟩ := next
        cases same
        have spec := Call.query_iff.mp queries
        have left : tables.Sound home (request.call records.sources).sources :=
          Tables.Sound.committed sound.tables spec (sound.homes spec) committed
        exact ⟨sound.sources, left⟩

/-- A recompute of a sound state commits. -/
theorem commits {request : Request} (sound : records.Sound home organization)
    (loads : ∀ row ∈ organization, ∃ location, loadLocation row.timezone = some location ∧ Steady location)
    (parsed : uuidIn request.orgId = some org) (known : org ∈ organization.map OrganizationRow.id)
    (clears : request.ClearsMoved loadLocation records) (draws : request.DrawsNew loadLocation records) :
    ∃ outcome, recompute loadLocation records.tables (request.call records.sources) = .ok outcome := by
  have here := sound.sources.organization
  obtain ⟨queried, queries⟩ := @Call.query_exists loadLocation org (request.call records.sources) parsed
    sound.sources.readable
    (fun row listed => by
      obtain ⟨location, zone, -⟩ := loads row (here ▸ listed)
      exact ⟨location, zone⟩)
    (here.symm ▸ known)
  have steady : Steady queried.rules.location := by
    obtain ⟨row, listed, zone⟩ := orgRules_location queries.ruled
    obtain ⟨location, same, steady⟩ := loads row (here ▸ listed)
    rw [zone] at same
    exact Option.some.inj same ▸ steady
  have query := Call.query_iff.mpr queries
  simp only [Request.ClearsMoved, query] at clears
  simp only [Request.DrawsNew, query] at draws
  have homes := sound.homes queries
  have fits : ∀ entry ∈ queried.byPerson,
      queried.PersonFits org (queried.window request.lower request.upper) entry := by
    intro entry listed
    rw [queries.loaded] at listed
    exact personFits_of_storable (sound.sources.entry_storable listed) (sound.sources.entry_few listed)
  obtain ⟨outcome, ran⟩ : ∃ outcome,
      transaction records.tables org queried (request.call records.sources) = .ok outcome :=
    transaction_exists sound.tables.anchored fits (spans_room queries steady sound.tables clears)
      (days_room queries steady sound.tables homes) draws
  exact ⟨outcome, except_bind_ok_iff.mpr ⟨(org, queried), query, ran⟩⟩

end Records.Sound

namespace Records

theorem sound_initial (home : String → Uuid) (organization : List OrganizationRow)
    (personSchedule : List PersonScheduleRow) {schedule : List ScheduleRow}
    (readable : ∀ row ∈ schedule, row.Readable) :
    (initial organization schedule personSchedule).Sound home organization where
  sources :=
    { organization := rfl
      readable
      few := Nat.two_pow_pos 31
      recorded := fun _ listed => absurd listed List.not_mem_nil
      corrected := fun _ listed => absurd listed List.not_mem_nil
      persons := fun _ listed => absurd listed List.not_mem_nil
      reassigned := fun _ listed => absurd listed List.not_mem_nil }
  tables :=
    { known := fun _ listed => absurd listed List.not_mem_nil
      anchored := fun _ listed => absurd listed List.not_mem_nil
      lodged := fun _ listed => absurd listed List.not_mem_nil }

/-- Whatever was stored, corrected, rescheduled and recomputed before, a window that
clears the rows of the arrivals moved into it can be recomputed. -/
theorem recompute_commits_of_clearsMoved (home : String → Uuid) (organization : List OrganizationRow)
    (schedule : List ScheduleRow) (personSchedule : List PersonScheduleRow)
    (loads : ∀ row ∈ organization, ∃ location, loadLocation row.timezone = some location ∧ Steady location)
    (readable : ∀ row ∈ schedule, row.Readable) (occurrences : List Occurrence) (records : Records)
    (orderly : Along (step loadLocation) (Orderly home) (initial organization schedule personSchedule)
      occurrences)
    (ran : run (step loadLocation) (initial organization schedule personSchedule) occurrences =
      some records)
    (request : Request) (org : Uuid) (parsed : uuidIn request.orgId = some org)
    (known : org ∈ organization.map OrganizationRow.id)
    (clears : request.ClearsMoved loadLocation records) (draws : request.DrawsNew loadLocation records) :
    ∃ outcome, recompute loadLocation records.tables (request.call records.sources) = .ok outcome := by
  have sound : records.Sound home organization := orderly.invariant
    (fun _ _ _ sound orderly stepped => sound.step orderly stepped)
    (sound_initial home organization personSchedule readable) ran
  exact sound.commits loads parsed known clears draws

/-! Someone arrives at 03:00, an hour before the day of the organisation starts, and is
counted on the day before.  Then the boundary is moved to 02:00. -/

def sampleSchedule (graceMinutes dayBoundary : Int) : ScheduleRow where
  id := 0x44444444444444444444444444444444#128
  orgId := sampleOrg
  weekdays := [1, 2, 3, 4, 5]
  expectedIn := 8 * hour
  expectedOut := 17 * hour
  graceMinutes
  dayBoundary

def movedBoundary : List Occurrence :=
  [.ingest (samplePunch 1 .in (3 * hour)), .recompute (sampleRequest (-1) 1),
    .reschedule [sampleSchedule 5 (2 * hour)] []]

instance (row : ScheduleRow) : Decidable row.Readable :=
  decidable_of_iff (row.dayBoundary < day ∧ row.expectedIn < day ∧ row.expectedOut < day)
    ⟨fun held => ⟨held.1, held.2.1, held.2.2⟩,
      fun held => ⟨held.dayBoundary, held.expectedIn, held.expectedOut⟩⟩

instance (instant : Int) : Decidable (Storable instant) :=
  inferInstanceAs (Decidable (0 ≤ instant ∧ instant ≤ (2 ^ 31 - 1) * second))

theorem movedBoundary_orderly :
    Along (step sampleLocation) (Orderly fun _ => sampleOrg) nairobi movedBoundary := by
  refine ⟨⟨by decide, fun _ _ => rfl, by decide⟩, fun _ _ => ⟨trivial, fun _ _ => ⟨?_, fun _ _ => trivial⟩⟩⟩
  change ∀ row ∈ [sampleSchedule 5 (2 * hour)], row.Readable
  decide

instance (request : Request) (records : Records) : Decidable (request.DrawsNew loadLocation records) :=
  match queries : (request.call records.sources).query loadLocation with
  | .error _ => .isTrue (by simp only [Request.DrawsNew, queries])
  | .ok (org, queried) =>
      decidable_of_iff ((records.tables.outbox.values.map OutboxEventRow.id ++
          (List.range (records.tables.eventCount org queried
            (queried.window request.lower request.upper))).map request.newId).Nodup)
        (by simp only [Request.DrawsNew, queries])

/-- The day the arrival moved to cannot be recomputed alone. -/
theorem moved_boundary_clashes :
    Along (step sampleLocation) (Orderly fun _ => sampleOrg) nairobi movedBoundary ∧
      ∃ records, run (step sampleLocation) nairobi movedBoundary = some records ∧
        (sampleRequest 0 2).DrawsNew sampleLocation records ∧
        recompute sampleLocation records.tables ((sampleRequest 0 2).call records.sources) =
          .error (.insertSpan (.uniqueViolation "attendance_span_in_event_idx")) := by
  have clashes : (run (step sampleLocation) nairobi movedBoundary).map (fun records =>
      (decide ((sampleRequest 0 2).DrawsNew sampleLocation records),
        match recompute sampleLocation records.tables ((sampleRequest 0 2).call records.sources) with
        | .ok _ => none
        | .error error => some error)) =
      some (true, some (.insertSpan (.uniqueViolation "attendance_span_in_event_idx"))) := by
    decide +kernel
  obtain ⟨records, ran, failed⟩ := Option.map_eq_some_iff.mp clashes
  obtain ⟨draws, error⟩ := Prod.mk.inj failed
  refine ⟨movedBoundary_orderly, records, ran, of_decide_eq_true draws, ?_⟩
  split at error
  next => cases error
  next failed => rw [failed, Option.some.inj error]

instance (request : Request) (records : Records) : Decidable (request.ClearsMoved loadLocation records) :=
  match queries : (request.call records.sources).query loadLocation with
  | .error _ => .isTrue (by simp only [Request.ClearsMoved, queries])
  | .ok (org, queried) =>
      decidable_of_iff (∀ row ∈ records.tables.spans.rows, row.orgId = org → ∀ id ∈ row.inEventId,
          ∀ date ∈ records.sources.startDate queried.rules id,
            (queried.window request.lower request.upper).covers date = true →
              (queried.window request.lower request.upper).covers row.businessDate = true)
        (by simp only [Request.ClearsMoved, queries])

theorem steady_sampleLocation (row : OrganizationRow)
    (listed : row ∈ [OrganizationRow.mk sampleOrg "Africa/Nairobi"]) :
    ∃ location, sampleLocation row.timezone = some location ∧ Steady location := by
  rw [List.mem_singleton] at listed
  rw [listed]
  exact ⟨.fixed (3 * hour), if_pos rfl, steady_fixed _⟩

/-- Both days together, from the same records. -/
def bothDays : Request := { sampleRequest 0 2 with lower := sampleDay - 12 * hour }

theorem moved_boundary_commits_bothDays :
    ∃ records, run (step sampleLocation) nairobi movedBoundary = some records ∧
      ∃ outcome, recompute sampleLocation records.tables (bothDays.call records.sources) = .ok outcome := by
  have met : (run (step sampleLocation) nairobi movedBoundary).map (fun records =>
      decide (bothDays.ClearsMoved sampleLocation records ∧ bothDays.DrawsNew sampleLocation records)) =
      some true := by
    decide +kernel
  obtain ⟨records, ran, met⟩ := Option.map_eq_some_iff.mp met
  obtain ⟨clears, draws⟩ := of_decide_eq_true met
  exact ⟨records, ran, recompute_commits_of_clearsMoved (fun _ => sampleOrg) _ [] [] steady_sampleLocation
    (fun _ listed => absurd listed List.not_mem_nil) movedBoundary records movedBoundary_orderly ran
    bothDays sampleOrg (by decide +kernel) (by decide) clears draws⟩

end Records

end Presence.Attendance
