import Presence.Attendance.Consumer
import Presence.Attendance.Padding

namespace Presence.Attendance

open Presence.Data Presence.Go Presence.Gateway Presence.Postgres

/-! # Amendments and windows

The statement of `loadPunches` bounds the time a punch was recorded with, and the
loop after it replaces that time by the amended one.
-/

/-! ## Punches as amended -/

/-- The event as its amendments leave it: not voided, and with a direction. -/
structure AmendedTo (db : Sources) (org : Uuid) (row : PunchEventRow) (person : String)
    (punch : Punch) : Prop where
  org : row.orgId = org
  resolved : row.status = .resolved
  person : ∃ recorded, row.personId = some recorded ∧
    person = uuidOut ((db.amended row.id PunchAmendmentRow.newPersonId).getD recorded)
  kept : db.voided row.id = false
  eventId : punch.eventId = row.id
  instant : punch.instant = (db.amended row.id PunchAmendmentRow.newEffectiveAt).getD row.effectiveAt
  direction : Direction.ofPunch ((db.amended row.id PunchAmendmentRow.newDirection).getD row.direction) =
    some punch.direction
  confidence : punch.confidence = row.timeConf

variable {db : Sources} {org : Uuid} {row : PunchEventRow} {person : String} {punch : Punch}

theorem loadPunch_iff :
    (row.orgId = org ∧ row.status = .resolved ∧ loadPunch db row = some (person, punch)) ↔
      AmendedTo db org row person punch := by
  constructor
  · rintro ⟨here, resolved, loaded⟩
    simp only [loadPunch, Option.bind_eq_bind, Option.bind_eq_some_iff] at loaded
    obtain ⟨recorded, known, loaded⟩ := loaded
    split at loaded
    next => cases loaded
    next kept =>
      obtain ⟨direction, told, loaded⟩ := Option.bind_eq_some_iff.mp loaded
      obtain ⟨rfl, rfl⟩ := Prod.mk.inj (Option.some.inj loaded)
      exact ⟨here, resolved, ⟨recorded, known, rfl⟩, Bool.not_eq_true _ ▸ kept, rfl, rfl, told, rfl⟩
  · intro amended
    obtain ⟨here, resolved, ⟨recorded, known, rfl⟩, kept, eventId, instant, direction, confidence⟩ := amended
    obtain ⟨id, effectiveAt, way, trust⟩ := punch
    dsimp only at eventId instant direction confidence
    subst eventId instant confidence
    refine ⟨here, resolved, ?_⟩
    simp only [loadPunch, known, kept, Option.bind_eq_bind, Option.bind_some, Bool.false_eq_true,
      if_false, direction]

/-- One of the punches listed for a person. -/
def Fed (byPerson : List (String × List Punch)) (person : String) (punch : Punch) : Prop :=
  ∃ entry ∈ byPerson, entry.1 = person ∧ punch ∈ entry.2

theorem mem_loadedPunches_iff {fetchFrom fetchTo : Int} :
    (person, punch) ∈ loadedPunches db org fetchFrom fetchTo ↔
      ∃ row ∈ db.punchEvent, AmendedTo db org row person punch ∧
        fetchFrom ≤ row.effectiveAt ∧ row.effectiveAt < fetchTo := by
  simp only [loadedPunches, List.mem_filterMap, List.mem_insertionSort, List.mem_filter, ← loadPunch_iff,
    fetched, decide_eq_true_eq]
  constructor
  · rintro ⟨row, ⟨stored, here, resolved, known, early, late⟩, loaded⟩
    exact ⟨row, stored, ⟨here, resolved, loaded⟩, early, late⟩
  · rintro ⟨row, stored, ⟨here, resolved, loaded⟩, early, late⟩
    obtain ⟨recorded, known, -⟩ := (loadPunch_iff.mp ⟨here, resolved, loaded⟩).person
    exact ⟨row, ⟨stored, here, resolved, by simp [known], early, late⟩, loaded⟩

theorem mem_valuesOf_loadPunches {fetchFrom fetchTo : Int} :
    punch ∈ valuesOf person (loadPunches db org fetchFrom fetchTo) ↔
      (person, punch) ∈ loadedPunches db org fetchFrom fetchTo := by
  rw [loadPunches, valuesOf_groupBy]
  simp

theorem fed_iff_mem_valuesOf {byPerson : List (String × List Punch)}
    (distinct : (byPerson.map Prod.fst).Nodup) :
    Fed byPerson person punch ↔ punch ∈ valuesOf person byPerson := by
  constructor
  · rintro ⟨entry, listed, rfl, member⟩
    rwa [valuesOf_of_mem distinct listed]
  · intro member
    exact ⟨_, mem_of_valuesOf (List.ne_nil_of_mem member), rfl, member⟩

theorem fed_loadPunches {fetchFrom fetchTo : Int} :
    Fed (loadPunches db org fetchFrom fetchTo) person punch ↔
      ∃ row ∈ db.punchEvent, AmendedTo db org row person punch ∧
        fetchFrom ≤ row.effectiveAt ∧ row.effectiveAt < fetchTo := by
  have distinct : ((loadPunches db org fetchFrom fetchTo).map Prod.fst).Nodup := groupBy_distinct ..
  rw [fed_iff_mem_valuesOf distinct, mem_valuesOf_loadPunches, mem_loadedPunches_iff]

/-! ## What a window shows of a person -/

variable {queried whole : Queried} {window : Window}

theorem Queried.groups_eq (queried : Queried) (window : Window) (punches : List Punch) :
    queried.groups window punches =
      groupByBusinessDate ((pair punches queried.rules).filter fun span =>
        window.requested (businessDate span.startedAt queried.rules)) queried.rules :=
  groupBy_filter window.requested _ id _

theorem Queried.groups_nil (queried : Queried) (window : Window) : queried.groups window [] = [] := rfl

theorem mem_spanSnapshots_iff (distinct : (queried.byPerson.map Prod.fst).Nodup) {snapshot : SpanSnapshot} :
    snapshot ∈ queried.spanSnapshots window ↔
      ∃ person, ∃ group ∈ queried.groups window (valuesOf person queried.byPerson),
        snapshot ∈ daySpans person group := by
  constructor
  · intro member
    obtain ⟨entry, listed, member⟩ := List.mem_flatMap.mp member
    obtain ⟨group, day, member⟩ := List.mem_flatMap.mp member
    rw [← valuesOf_of_mem distinct listed] at day
    exact ⟨entry.1, group, day, member⟩
  · rintro ⟨person, group, day, member⟩
    have some : valuesOf person queried.byPerson ≠ [] := by
      intro none
      rw [none, Queried.groups_nil] at day
      cases day
    exact List.mem_flatMap.mpr ⟨_, mem_of_valuesOf some, List.mem_flatMap.mpr ⟨group, day, member⟩⟩

theorem mem_daySnapshots_iff (distinct : (queried.byPerson.map Prod.fst).Nodup) {snapshot : DaySnapshot} :
    snapshot ∈ queried.daySnapshots window ↔
      ∃ person, ∃ group ∈ queried.groups window (valuesOf person queried.byPerson),
        snapshot = queried.dayOf person group := by
  constructor
  · intro member
    obtain ⟨entry, listed, member⟩ := List.mem_flatMap.mp member
    obtain ⟨group, day, rfl⟩ := List.mem_map.mp member
    rw [← valuesOf_of_mem distinct listed] at day
    exact ⟨entry.1, group, day, rfl⟩
  · rintro ⟨person, group, day, rfl⟩
    have some : valuesOf person queried.byPerson ≠ [] := by
      intro none
      rw [none, Queried.groups_nil] at day
      cases day
    exact List.mem_flatMap.mpr ⟨_, mem_of_valuesOf some, List.mem_map.mpr ⟨group, day, rfl⟩⟩

/-- Queries that differ in the punches only, and not in what a window shows of these. -/
structure SameIn (window : Window) (queried whole : Queried) : Prop where
  spans : ∀ snapshot, snapshot ∈ queried.spanSnapshots window ↔ snapshot ∈ whole.spanSnapshots window
  days : ∀ snapshot, snapshot ∈ queried.daySnapshots window ↔ snapshot ∈ whole.daySnapshots window

theorem sameIn_of_groups {byPerson : List (String × List Punch)}
    (distinct : (queried.byPerson.map Prod.fst).Nodup) (wholeDistinct : (byPerson.map Prod.fst).Nodup)
    (groups : ∀ person, queried.groups window (valuesOf person queried.byPerson) =
      queried.groups window (valuesOf person byPerson)) :
    SameIn window queried { queried with byPerson } := by
  constructor
  · intro snapshot
    rw [mem_spanSnapshots_iff distinct, mem_spanSnapshots_iff wholeDistinct]
    simp only [groups]
    rfl
  · intro snapshot
    rw [mem_daySnapshots_iff distinct, mem_daySnapshots_iff wholeDistinct]
    simp only [groups]
    rfl

/-! ## A call -/

variable {loadLocation : String → Option Location} {call : Call}

theorem orgRules_standard {rules : Rules} (found : orgRules loadLocation db org = .ok rules) :
    rules.Standard := by
  obtain ⟨timezone, location, boundary, -, rfl⟩ := orgRules_ok found
  exact ⟨rfl, rfl⟩

theorem Call.fetchFrom_le (call : Call) : call.fetchFrom + 2 * day ≤ call.lower := by
  simp only [Call.fetchFrom, timestamptz, lookbackDays]
  omega

theorem Call.le_fetchTo (call : Call) : call.upper + 49 * hour ≤ call.fetchTo := by
  simp only [Call.fetchTo, timestamptz, lookbackDays, day, hour, minute, second, millisecond]
  omega

/-! ## Amended into the window -/

/-- No amendment takes a punch across an end of the fetched range. -/
def Call.Unmoved (call : Call) (org : Uuid) : Prop :=
  ∀ row ∈ call.sources.punchEvent, ∀ person punch, AmendedTo call.sources org row person punch →
    (call.fetchFrom ≤ row.effectiveAt ∧ row.effectiveAt < call.fetchTo ↔
      punch.within call.fetchFrom call.fetchTo = true)

/-- The window shows what it would show if the range were everything. -/
def Call.ShowsHistory (call : Call) (org : Uuid) (queried : Queried) : Prop :=
  ∀ low high, (∀ row ∈ call.sources.punchEvent, low ≤ row.effectiveAt ∧ row.effectiveAt < high) →
    (∀ entry ∈ loadPunches call.sources org low high,
      Pairing.Bounded queried.rules (pair entry.2 queried.rules)) →
    SameIn (queried.window call.lower call.upper) queried
      { queried with byPerson := loadPunches call.sources org low high }

theorem loadPunches_names (db : Sources) (org : Uuid) (fetchFrom fetchTo : Int) :
    ((loadPunches db org fetchFrom fetchTo).map Prod.fst).Nodup :=
  groupBy_distinct ..

theorem Loaded.valuesOf_distinct {byPerson : List (String × List Punch)} (loaded : Loaded byPerson)
    (person : String) : ((valuesOf person byPerson).map Punch.eventId).Nodup := by
  by_cases none : valuesOf person byPerson = []
  · rw [none]
    exact List.nodup_nil
  · have distinct := loaded.distinct
    rw [List.map_flatMap] at distinct
    exact (List.nodup_flatMap.mp distinct).1 _ (mem_of_valuesOf none)

/-- A person's punches in the range are those of the history that lie in it. -/
theorem Call.Unmoved.valuesOf_perm (unmoved : call.Unmoved org) {low high : Int}
    (all : ∀ row ∈ call.sources.punchEvent, low ≤ row.effectiveAt ∧ row.effectiveAt < high)
    (person : String) :
    (valuesOf person (loadPunches call.sources org call.fetchFrom call.fetchTo)).Perm
      ((valuesOf person (loadPunches call.sources org low high)).filter
        (Punch.within call.fetchFrom call.fetchTo)) := by
  have windowed := (loaded_loadPunches call.sources org call.fetchFrom call.fetchTo).valuesOf_distinct person
  have everything := (loaded_loadPunches call.sources org low high).valuesOf_distinct person
  refine (List.perm_ext_iff_of_nodup windowed.of_map (everything.of_map.filter _)).mpr fun punch => ?_
  rw [List.mem_filter, mem_valuesOf_loadPunches, mem_valuesOf_loadPunches, mem_loadedPunches_iff,
    mem_loadedPunches_iff]
  constructor
  · rintro ⟨row, stored, amended, recorded⟩
    exact ⟨⟨row, stored, amended, all row stored⟩, (unmoved row stored person punch amended).mp recorded⟩
  · rintro ⟨⟨row, stored, amended, -⟩, inside⟩
    exact ⟨row, stored, amended, (unmoved row stored person punch amended).mpr inside⟩

/-- Every zone that loads keeps its dates apart. -/
def Regular (loadLocation : String → Option Location) : Prop :=
  ∀ timezone location, loadLocation timezone = some location → Spaced location

theorem Call.Unmoved.showsHistory (regular : Regular loadLocation)
    (queries : call.Queries loadLocation org queried) (unmoved : call.Unmoved org) :
    call.ShowsHistory org queried := by
  intro low high all bounded
  obtain ⟨timezone, location, boundary, zone, ruled⟩ := orgRules_ok queries.ruled
  have spaced : Spaced queried.rules.location := by
    rw [ruled]
    exact regular timezone location zone
  apply sameIn_of_groups (by rw [queries.loaded]; exact loadPunches_names ..) (loadPunches_names ..)
  intro person
  have distinct := (loaded_loadPunches call.sources org low high).valuesOf_distinct person
  have windowed := (loaded_loadPunches call.sources org call.fetchFrom call.fetchTo).valuesOf_distinct person
  have short : Pairing.Bounded queried.rules
      (pair (valuesOf person (loadPunches call.sources org low high)) queried.rules) := by
    by_cases none : valuesOf person (loadPunches call.sources org low high) = []
    · rw [none]
      exact fun span member => by cases member
    · exact bounded _ (mem_of_valuesOf none)
  have same := pair_within (orgRules_standard queries.ruled) spaced call.fetchFrom_le call.le_fetchTo
    distinct short
  rw [queries.loaded, Queried.groups_eq, Queried.groups_eq,
    pair_perm queried.rules windowed (unmoved.valuesOf_perm all person)]
  exact congrArg (groupByBusinessDate · queried.rules) same

end Presence.Attendance
