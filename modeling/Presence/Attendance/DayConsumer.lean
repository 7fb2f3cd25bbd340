import Presence.Attendance.Consumer

namespace Presence.Attendance

open Presence.Data Presence.Go Presence.Gateway Presence.Postgres

/-! # Day consumers converge

The primary key of `attendance_day` is the consumer's key, and the comparison sees
every column, so the events of each call say exactly what became of the table.
-/

/-- The data of the row under each key. -/
def Tables.dayTable (tables : Tables) : DayKey → Option DayData :=
  tables.days.contents DayRow.data

variable {tables next : Tables} {org : Uuid} {queried : Queried} {window : Window}
  {orgId : String} {emittedAt : Int} {key : DayKey} {data : DayData}

theorem Tables.dayTable_eq_some : tables.dayTable key = some data ↔
    ∃ row ∈ tables.days.values, row.key = key ∧ row.data = data := by
  simp only [Tables.dayTable, Keyed.contents, Option.map_eq_some_iff, Keyed.lookup_eq_some,
    and_assoc]

theorem Tables.dayTable_eq_none :
    tables.dayTable key = none ↔ ∀ row ∈ tables.days.values, row.key ≠ key := by
  simp only [Tables.dayTable, Keyed.contents, Option.map_eq_none_iff, Keyed.lookup_eq_none]

theorem DaySnapshot.equal_iff {prev next : DaySnapshot} :
    prev.equal next = true ↔ prev.data = next.data := by
  simp only [DaySnapshot.equal, DaySnapshot.data, Bool.and_eq_true, decide_eq_true_eq,
    DayData.mk.injEq]
  tauto

namespace Committed

variable (committed : Committed tables next org queried window orgId emittedAt)
include committed

theorem daySnapshots_distinct : ((queried.daySnapshots window).map DaySnapshot.key).Nodup := by
  have stored := next.days.distinct
  rw [committed.days, List.map_append, List.map_map] at stored
  exact (List.nodup_append.mp stored).2.1

/-- The call's events say what it did to the rows. -/
theorem dayTable_recorded {clock : Int} (loaded : Loaded queried.byPerson)
    (newer : clock < emittedAt)
    (recorded : Recorded (tables.dayEvents.map DayEventPayload.write) tables.dayTable clock) :
    Recorded (next.dayEvents.map DayEventPayload.write) next.dayTable emittedAt := by
  have after : ∀ {snapshot : DaySnapshot},
      snapshot ∈ (Keyed.ofList (queried.daySnapshots window)).values ↔
        snapshot ∈ queried.daySnapshots window :=
    Keyed.mem_ofList committed.daySnapshots_distinct
  rw [committed.dayWrites]
  apply recorded.append_diff newer
  · intro prev found
    obtain ⟨row, stored, -, rfl⟩ := mem_loadDaySnapshots.mp found
    rw [Tables.dayTable_eq_some]
    exact ⟨row, stored, row.snapshot_key.symm, rfl⟩
  · intro snapshot found
    have written := after.mp found
    rw [Tables.dayTable_eq_some]
    exact ⟨snapshot.row org, committed.mem_days.mpr (.inr ⟨snapshot, written, rfl⟩), rfl,
      daySnapshots_row_data loaded org written⟩
  · intro prev found gone
    obtain ⟨row, stored, scope, rfl⟩ := mem_loadDaySnapshots.mp found
    rw [Tables.dayTable_eq_none]
    intro other present same
    rcases committed.mem_days.mp present with ⟨kept, outside⟩ | ⟨snapshot, written, rfl⟩
    · rw [tables.days.eq_of_key kept stored (same.trans row.snapshot_key), scope] at outside
      cases outside
    · exact gone snapshot (after.mpr written) same
  · intro here unread unwritten
    apply Option.ext
    intro data
    rw [Tables.dayTable_eq_some, Tables.dayTable_eq_some]
    constructor
    · intro given
      obtain ⟨row, present, named, read⟩ := given
      rcases committed.mem_days.mp present with ⟨kept, -⟩ | ⟨snapshot, written, rfl⟩
      · exact ⟨row, kept, named, read⟩
      · exact absurd named (unwritten snapshot (after.mpr written))
    · intro given
      obtain ⟨row, stored, named, read⟩ := given
      refine ⟨row, committed.mem_days.mpr (.inl ⟨stored, ?_⟩), named, read⟩
      rw [Bool.eq_false_iff]
      intro scope
      exact unread row.snapshot (mem_loadDaySnapshots.mpr ⟨row, stored, scope, rfl⟩)
        (row.snapshot_key.trans named)
  · exact fun _ _ _ _ => Iff.rfl
  · exact fun _ _ _ _ _ passes => DaySnapshot.equal_iff.mp passes

end Committed

/-! ## Every run -/

/-- The events, read by the newest of each key, are the rows. -/
def DaysRecorded (state : State) : Prop :=
  Recorded (state.tables.dayEvents.map DayEventPayload.write) state.tables.dayTable state.clock

variable {loadLocation : String → Option Location}

theorem daysRecorded_initial (clock : Int) : DaysRecorded (.initial clock) :=
  ⟨reflects_nil, fun _ member => absurd member List.not_mem_nil⟩

theorem DaysRecorded.step {state next : State} {input : Input} (recorded : DaysRecorded state)
    (taken : state.step loadLocation input = some next) : DaysRecorded next := by
  simp only [DaysRecorded]
  obtain ⟨later, same | ⟨call, org, queried, rfl, clock, queries, committed⟩⟩ :=
    State.step_cases taken
  · rw [same]
    exact recorded.later later.le
  · rw [clock] at later ⊢
    exact committed.dayTable_recorded (Call.query_loaded queries) later recorded

/-! ## A call made twice -/

theorem date_le_of_instant_le {rules : Rules} {offset first second : Int}
    (fixed : rules.location = .fixed offset)
    (ordered : (businessDate first rules).instant ≤ (businessDate second rules).instant) :
    (businessDate first rules).date ≤ (businessDate second rules).date := by
  simp only [businessDate, fixed, Location.midnight_fixed] at ordered ⊢
  exact Int.ediv_le_ediv (by decide) (by simpa using ordered)

/-- In a fixed zone what the engine writes is what the next call will read. -/
theorem daySnapshots_covered {lower upper offset : Int} {snapshot : DaySnapshot}
    (fixed : queried.rules.location = .fixed offset)
    (member : snapshot ∈ queried.daySnapshots (queried.window lower upper)) :
    (queried.window lower upper).covers snapshot.businessDate.date = true := by
  obtain ⟨entry, -, group, day, rfl⟩ := mem_daySnapshots member
  obtain ⟨grouped, requested⟩ := List.mem_filter.mp day
  obtain ⟨span, -, date⟩ := groupBy_name _ _ _ group grouped
  simp only [Window.requested, decide_eq_true_eq] at requested
  have reported : (queried.dayOf entry.1 group).businessDate = businessDate span.startedAt
      queried.rules := (rollup_businessDate ..).trans date
  rw [date] at requested
  rw [reported]
  simp only [Window.covers, decide_eq_true_eq]
  exact ⟨date_le_of_instant_le fixed requested.1, date_le_of_instant_le fixed requested.2⟩

theorem Committed.repeated {last : Tables} {lower upper offset again : Int} {orgId' : String}
    (first : Committed tables next org queried (queried.window lower upper) orgId emittedAt)
    (second : Committed next last org queried (queried.window lower upper) orgId' again)
    (loaded : Loaded queried.byPerson) (fixed : queried.rules.location = .fixed offset) :
    Keyed.diff DaySnapshot.equal (loadDaySnapshots next.days org (queried.window lower upper))
      (.ofList (queried.daySnapshots (queried.window lower upper))) = [] := by
  have after : ∀ {snapshot : DaySnapshot},
      snapshot ∈ (Keyed.ofList (queried.daySnapshots (queried.window lower upper))).values ↔
        snapshot ∈ queried.daySnapshots (queried.window lower upper) :=
    Keyed.mem_ofList second.daySnapshots_distinct
  apply Keyed.diff_eq_nil
  · intro snapshot written
    have member := after.mp written
    have scope : (snapshot.row org).inScope org (queried.window lower upper) = true :=
      Window.selects_iff.mpr ⟨rfl, daySnapshots_covered fixed member⟩
    have stored := first.mem_days.mpr (.inr ⟨snapshot, member, rfl⟩)
    refine ⟨_, mem_loadDaySnapshots.mpr ⟨_, stored, scope, rfl⟩, DayRow.snapshot_key _, ?_⟩
    exact DaySnapshot.equal_iff.mpr (daySnapshots_row_data loaded org member)
  · intro prev found
    obtain ⟨row, stored, scope, rfl⟩ := mem_loadDaySnapshots.mp found
    rcases first.mem_days.mp stored with ⟨-, outside⟩ | ⟨snapshot, member, rfl⟩
    · rw [scope] at outside
      cases outside
    · exact ⟨snapshot, after.mpr member, (DayRow.snapshot_key (snapshot.row org)).symm⟩

/-- A consumer that has received every day event, in whatever order and however
often, holds the rows of `attendance_day`; and a call repeated over the same
queries emits no day event. -/
theorem State.dayConsumers_converge {clock : Int} {inputs : List Input} {final : State}
    (ran : run (State.step loadLocation) (.initial clock) inputs = some final) :
    (∀ delivered : List DayEventPayload,
      (∀ event, event ∈ delivered ↔ event ∈ final.tables.dayEvents) →
      ∀ key data, (dayConsumer delivered).read key = some data ↔
        ∃ row ∈ final.tables.days.values, row.key = key ∧ row.data = data) ∧
    ∀ (call again : Call) (once twice : Tables × Result) (org : Uuid) (queried : Queried)
      (offset : Int),
      recompute loadLocation final.tables call = .ok once →
      recompute loadLocation once.1 again = .ok twice →
      again.lower = call.lower → again.upper = call.upper →
      call.query loadLocation = .ok (org, queried) →
      again.query loadLocation = .ok (org, queried) →
      queried.rules.location = .fixed offset →
      twice.1.dayEvents = once.1.dayEvents := by
  constructor
  · intro delivered seen key data
    have recorded : DaysRecorded final :=
      run_invariant (fun _ _ _ => DaysRecorded.step) (daysRecorded_initial clock) ran
    have received : ∀ write, write ∈ delivered.map DayEventPayload.write ↔
        write ∈ final.tables.dayEvents.map DayEventPayload.write := by
      simp [seen]
    rw [dayConsumer, recorded.reflects.read_receive received, Tables.dayTable_eq_some]
  · intro call again once twice org queried offset ranOnce ranTwice lower upper queries requeries
      fixed
    obtain ⟨_, _, same, first⟩ := recompute_committed ranOnce
    obtain ⟨_, _, resame, second⟩ := recompute_committed ranTwice
    rw [queries] at same
    rw [requeries] at resame
    cases same
    cases resame
    rw [lower, upper] at second
    obtain ⟨spanId, dayId, appended⟩ := second.events
    rw [diffDays, first.repeated second (Call.query_loaded queries) fixed] at appended
    rw [Tables.dayEvents, appended, List.filterMap_append, List.filterMap_append,
      diffSpans_dayPayload]
    simp [Tables.dayEvents]

def sampleInputs : List Input :=
  [.recompute (sampleCall arrived (sampleDay + 10 * hour)), .fault (sampleDay + 11 * hour),
    .recompute (sampleCall departed (sampleDay + 18 * hour))]

theorem sampleInputs_run : (run (State.step sampleLocation) (.initial sampleDay) sampleInputs).isSome := by
  decide +kernel

theorem sampleInputs_converge :
    ∃ final, run (State.step sampleLocation) (.initial sampleDay) sampleInputs = some final ∧
      (∀ key data, (dayConsumer final.tables.dayEvents.reverse).read key = some data ↔
        ∃ row ∈ final.tables.days.values, row.key = key ∧ row.data = data) ∧
      ∃ once twice,
        recompute sampleLocation final.tables (sampleCall departed (sampleDay + 19 * hour)) =
          .ok once ∧
        recompute sampleLocation once.1 (sampleCall departed (sampleDay + 20 * hour)) = .ok twice ∧
        twice.1.dayEvents = once.1.dayEvents := by
  have ran := (Option.some_get sampleInputs_run).symm
  have repeats : (recompute sampleLocation (Option.get _ sampleInputs_run).tables
        (sampleCall departed (sampleDay + 19 * hour)) >>= fun once =>
      recompute sampleLocation once.1 (sampleCall departed (sampleDay + 20 * hour))).toBool = true := by
    decide +kernel
  obtain ⟨twice, ranBoth⟩ := exists_ok_of_toBool repeats
  obtain ⟨once, ranOnce, ranTwice⟩ := except_bind_ok_iff.mp ranBoth
  obtain ⟨org, queried, queries, -⟩ := recompute_committed ranOnce
  have zone : queried.rules.location = .fixed (3 * hour) := by
    obtain ⟨timezone, found⟩ := Call.query_location queries
    simp only [sampleLocation, Option.ite_none_right_eq_some, Option.some.injEq] at found
    exact found.2.symm
  obtain ⟨converge, silent⟩ := State.dayConsumers_converge ran
  refine ⟨_, ran, converge _ (fun event => List.mem_reverse), once, twice, ranOnce, ranTwice, ?_⟩
  exact silent _ _ once twice org queried (3 * hour) ranOnce ranTwice rfl rfl queries queries zone

end Presence.Attendance
