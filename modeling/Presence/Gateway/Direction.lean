import Mathlib.Data.List.Induction
import Mathlib.Logic.Function.Iterate
import Presence.Gateway.Idempotence

namespace Presence.Gateway

open Presence.Data Presence.Go Presence.Postgres

/-! # Derived directions and the order of uploads

A bidirectional reader takes the direction of a punch from the latest earlier punch of
the person that is stored at that moment, and keeps it.  What decides it is how often
that latest punch changed while the person's punches came in.
-/

/-- A punch that `deriveDirection` looks at. -/
def PunchEventRow.isOf (row : PunchEventRow) (person : Uuid) : Bool :=
  decide (row.personId = some person ∧ row.status = .resolved)

/-- The other way than the last one, and in for the first. -/
def follow : Option PunchDirection → PunchDirection
  | some .in => .out
  | _ => .in

def lastDirection (rows : List PunchEventRow) (person : Uuid) (before : Int) : Option PunchDirection :=
  (latestResolved rows person before).map PunchEventRow.direction

def turn : PunchDirection → PunchDirection
  | .in => .out
  | _ => .in

variable {rows added : List PunchEventRow} {row : PunchEventRow} {person : Uuid} {before bound : Int}

theorem deriveDirection_bidirectional {db : Database} {dev : Device} (effective : Time)
    (mode : dev.mode = .bidirectional) :
    deriveDirection db dev person effective =
      follow (lastDirection db.punchEvent person (timestamptz effective.instant)) := by
  simp only [deriveDirection, lastDirection]
  rw [mode]
  cases latest : latestResolved db.punchEvent person (timestamptz effective.instant) with
  | none => simp [follow]
  | some last =>
      cases direction : last.direction <;> simp [follow, direction]

/-! ## The latest punch -/

/-- The row is now the latest before the instant. -/
def Takes (row : PunchEventRow) (person : Uuid) (before : Int) (latest : Option PunchEventRow) : Prop :=
  row.isOf person = true ∧ row.effectiveAt < before ∧
    latest.all (fun found => found.effectiveAt < row.effectiveAt) = true

instance (latest : Option PunchEventRow) : Decidable (Takes row person before latest) :=
  inferInstanceAs (Decidable (_ ∧ _ ∧ _))

theorem latestResolved_concat (rows : List PunchEventRow) (row : PunchEventRow) (person : Uuid)
    (before : Int) :
    latestResolved (rows ++ [row]) person before =
      if Takes row person before (latestResolved rows person before) then some row
      else latestResolved rows person before := by
  rw [latestResolved, List.foldl_concat, ← latestResolved]
  cases latestResolved rows person before with
  | none =>
      refine if_congr ?_ rfl rfl
      simp only [Takes, PunchEventRow.isOf, Option.all_none, decide_eq_true_eq, and_true]
      tauto
  | some found =>
      simp only [Takes, PunchEventRow.isOf, Option.all_some, decide_eq_true_eq]
      split_ifs <;> first | rfl | tauto

theorem le_latestResolved (rows : List PunchEventRow) (person : Uuid) (before : Int) :
    ∀ row ∈ rows, row.isOf person = true → row.effectiveAt < before →
      ∃ found ∈ latestResolved rows person before, row.effectiveAt ≤ found.effectiveAt := by
  induction rows using List.reverseRecOn with
  | nil => simp
  | append_singleton rows last ih =>
      intro row member own early
      rw [latestResolved_concat]
      rcases List.mem_append.mp member with old | new
      · obtain ⟨found, latest, below⟩ := ih row old own early
        split
        next takes =>
          have beaten := takes.2.2
          rw [latest, Option.all_some, decide_eq_true_eq] at beaten
          exact ⟨last, rfl, by omega⟩
        next => exact ⟨found, latest, below⟩
      · rw [List.mem_singleton.mp new] at own early ⊢
        cases latest : latestResolved rows person before with
        | none =>
            rw [if_pos ⟨own, early, rfl⟩]
            exact ⟨last, rfl, le_rfl⟩
        | some found =>
            by_cases beaten : found.effectiveAt < last.effectiveAt
            · rw [if_pos ⟨own, early, by simpa using beaten⟩]
              exact ⟨last, rfl, le_rfl⟩
            · rw [if_neg fun takes => beaten (by simpa using takes.2.2)]
              exact ⟨found, rfl, by omega⟩

/-- Punches from the bound on do not change what is the latest before it. -/
theorem latestResolved_bound (le : bound ≤ before)
    (none : ∀ row ∈ rows, row.isOf person = true → row.effectiveAt < before → row.effectiveAt < bound) :
    latestResolved rows person bound = latestResolved rows person before := by
  induction rows using List.reverseRecOn with
  | nil => rfl
  | append_singleton rows last ih =>
      rw [latestResolved_concat, latestResolved_concat,
        ih fun row member => none row (List.mem_append_left _ member)]
      have same : Takes last person bound (latestResolved rows person before) ↔
          Takes last person before (latestResolved rows person before) := by
        constructor
        · exact fun takes => ⟨takes.1, by have := takes.2.1; omega, takes.2.2⟩
        · exact fun takes => ⟨takes.1, none last (by simp) takes.1 takes.2.1, takes.2.2⟩
      exact if_congr same rfl rfl

/-! ## How often it changed -/

/-- How many of the instants before this one are later than all such instants ahead of
them, the first of which is given. -/
def records (before : Int) : Option Int → List Int → Nat
  | _, [] => 0
  | top, instant :: rest =>
      if instant < before ∧ top.all (fun known => known < instant) = true then
        records before (some instant) rest + 1
      else records before top rest

/-- The rows came one after the other, each with the direction of that moment. -/
def Chained (person : Uuid) : List PunchEventRow → List PunchEventRow → Prop
  | _, [] => True
  | rows, row :: rest =>
      (row.isOf person = true →
        row.direction = follow (lastDirection rows person row.effectiveAt)) ∧
      Chained person (rows ++ [row]) rest

theorem Chained.append_iff {later : List PunchEventRow} :
    Chained person rows (added ++ later) ↔
      Chained person rows added ∧ Chained person (rows ++ added) later := by
  induction added generalizing rows with
  | nil => simp [Chained]
  | cons row rest ih => simp [Chained, ih, and_assoc]

theorem follow_follow (last : Option PunchDirection) : follow (some (follow last)) = turn (follow last) := by
  cases last with
  | none => rfl
  | some direction => cases direction <;> rfl

/-- Each change of the latest punch turns the direction that comes next. -/
theorem follow_lastDirection (chained : Chained person rows added) (before : Int) :
    follow (lastDirection (rows ++ added) person before) =
      turn^[records before ((latestResolved rows person before).map PunchEventRow.effectiveAt)
        ((added.filter (PunchEventRow.isOf · person)).map PunchEventRow.effectiveAt)]
          (follow (lastDirection rows person before)) := by
  induction added generalizing rows with
  | nil => simp [records]
  | cons row rest ih =>
      obtain ⟨derived, later⟩ := chained
      have next := ih later
      rw [List.append_assoc, List.singleton_append] at next
      rw [next, lastDirection, latestResolved_concat]
      by_cases own : row.isOf person = true
      · rw [List.filter_cons_of_pos (p := (PunchEventRow.isOf · person)) own, List.map_cons, records]
        by_cases takes : Takes row person before (latestResolved rows person before)
        · have counted : row.effectiveAt < before ∧
              ((latestResolved rows person before).map PunchEventRow.effectiveAt).all
                (fun known => known < row.effectiveAt) = true := by
            refine ⟨takes.2.1, ?_⟩
            rw [Option.all_map]
            exact takes.2.2
          -- the row is later than all before it, so it followed the latest of them
          have same : latestResolved rows person row.effectiveAt = latestResolved rows person before := by
            refine latestResolved_bound (Int.le_of_lt takes.2.1) fun other member own early => ?_
            obtain ⟨found, latest, le⟩ := le_latestResolved rows person before other member own early
            have beaten := takes.2.2
            rw [latest, Option.all_some, decide_eq_true_eq] at beaten
            omega
          rw [if_pos takes, if_pos counted, Option.map_some, Option.map_some, derived own,
            follow_follow, lastDirection, lastDirection, same, Function.iterate_succ_apply]
        · have skipped : ¬ (row.effectiveAt < before ∧
              ((latestResolved rows person before).map PunchEventRow.effectiveAt).all
                (fun known => known < row.effectiveAt) = true) := by
            rintro ⟨early, top⟩
            rw [Option.all_map] at top
            exact takes ⟨own, early, top⟩
          rw [if_neg takes, if_neg skipped, lastDirection]
      · rw [List.filter_cons_of_neg (p := (PunchEventRow.isOf · person)) own, if_neg fun takes => own takes.1, lastDirection]

/-! ## What a run stores -/

theorem ingestEvent_chained {dev : Device} {deviceUptimeMs : Int} {now : Time} {db after : Database}
    {ev : PunchEvent} {verdict : Verdict} (mode : dev.mode = .bidirectional)
    (done : ingestEvent dev deviceUptimeMs now db ev = .ok (after, verdict)) :
    ∃ added, after.punchEvent = db.punchEvent ++ added ∧ Chained person db.punchEvent added := by
  obtain ⟨judgement, columns, -, -, -, effect⟩ := ingestEvent_cases done
  obtain ⟨-, -, rfl⟩ | ⟨-, -, -, rfl⟩ := effect
  · exact ⟨[], by simp, trivial⟩
  · refine ⟨[_], rfl, fun own => ?_, trivial⟩
    have owned := of_decide_eq_true own
    change Judgement.direction judgement db dev = follow
      (lastDirection db.punchEvent person (timestamptz judgement.effective.instant))
    have status : judgement.resolution.status = .resolved := owned.2
    have holder : judgement.resolution.personId = some person := owned.1
    rw [Judgement.direction, status, holder]
    exact deriveDirection_bidirectional judgement.effective mode

/-- The rows after these, and the directions they came with. -/
def Continues (person : Uuid) (db after : Database) : Prop :=
  ∃ added, after.punchEvent = db.punchEvent ++ added ∧ Chained person db.punchEvent added

theorem Continues.refl (person : Uuid) (db : Database) : Continues person db db :=
  ⟨[], by simp, trivial⟩

theorem Continues.trans {first second third : Database} (left : Continues person first second)
    (right : Continues person second third) : Continues person first third := by
  obtain ⟨early, earlyRows, earlyChained⟩ := left
  obtain ⟨late, lateRows, lateChained⟩ := right
  rw [earlyRows] at lateRows lateChained
  exact ⟨early ++ late, by rw [lateRows, List.append_assoc],
    Chained.append_iff.mpr ⟨earlyChained, lateChained⟩⟩

theorem ingestEvents_continues {dev : Device} {deviceUptimeMs : Int} {now : Time} {db after : Database}
    {events : List PunchEvent} {verdicts : List (Int × Verdict)} (mode : dev.mode = .bidirectional)
    (done : ingestEvents dev deviceUptimeMs now db events = .ok (after, verdicts)) :
    Continues person db after := by
  induction events generalizing db verdicts with
  | nil =>
      cases done
      exact .refl person _
  | cons ev events ih =>
      obtain ⟨middle, verdict, rest, first, remaining, -⟩ := ingestEvents_cons_invert done
      exact Continues.trans (ingestEvent_chained mode first) (ih remaining)

/-- Every upload of the run comes from a reader that cannot tell the direction. -/
def Bidirectional : IngestInput → Prop
  | .ingest dev _ _ => dev.mode = .bidirectional
  | .reassign _ _ _ => True

theorem ingestStep_continues {sortSlice : SortSlice} {db after : Database} {input : IngestInput}
    (bidirectional : Bidirectional input) (taken : ingestStep sortSlice db input = some after) :
    Continues person db after := by
  cases input with
  | ingest dev req now =>
      obtain ⟨response, done⟩ := ingestStep_ingest taken
      simp only [ingestBatch, except_bind_ok_iff] at done
      obtain ⟨⟨middle, verdicts⟩, loop, logged, log, final, update, returned⟩ := done
      cases returned
      obtain ⟨-, rfl⟩ := check_ok_iff.mp update
      obtain ⟨sameRows, -⟩ := insertSyncBatch_invert log
      obtain ⟨added, rows, chained⟩ := @ingestEvents_continues person _ _ _ _ _ _ _ bidirectional loop
      exact ⟨added, by simpa [sameRows] using rows, chained⟩
  | reassign people credential deviceSlot =>
      cases taken
      exact .refl person _

theorem run_continues {sortSlice : SortSlice} {db after : Database} {inputs : List IngestInput}
    (bidirectional : ∀ input ∈ inputs, Bidirectional input)
    (ran : run (ingestStep sortSlice) db inputs = some after) : Continues person db after := by
  induction inputs generalizing db with
  | nil =>
      cases ran
      exact .refl person _
  | cons input inputs ih =>
      obtain ⟨next, taken, remaining⟩ := run_cons_invert ran
      obtain ⟨first, rest⟩ := List.forall_mem_cons.mp bidirectional
      exact (ingestStep_continues first taken).trans (ih rest remaining)

/-! ## Two orders -/

/-- Which punch it is, and when it was made. -/
def PunchEventRow.timing (row : PunchEventRow) : (Uuid × Int) × Int := (row.key, row.effectiveAt)

/-- The punches of the person that a run added, in the order they were stored. -/
def newPunches (db after : Database) (person : Uuid) : List PunchEventRow :=
  (after.punchEvent.drop db.punchEvent.length).filter (PunchEventRow.isOf · person)

/-- How often the latest punch before this one changed, from the stored ones on, until
this one came. -/
def turnsBefore (db : Database) (person : Uuid) (arrivals : List ((Uuid × Int) × Int))
    (punch : (Uuid × Int) × Int) : Nat :=
  records punch.2 ((latestResolved db.punchEvent person punch.2).map PunchEventRow.effectiveAt)
    ((arrivals.takeWhile fun other => other.1 ≠ punch.1).map Prod.snd)

theorem Continues.newPunches {db after : Database} (continues : Continues person db after) :
    ∃ added, after.punchEvent = db.punchEvent ++ added ∧ Chained person db.punchEvent added ∧
      newPunches db after person = added.filter (PunchEventRow.isOf · person) := by
  obtain ⟨added, rows, chained⟩ := continues
  refine ⟨added, rows, chained, ?_⟩
  rw [Gateway.newPunches, rows, List.drop_left]

theorem takeWhile_key {front back : List PunchEventRow}
    (keys : ((front ++ row :: back).map PunchEventRow.key).Nodup) :
    ((front ++ row :: back).map PunchEventRow.timing).takeWhile (fun other => other.1 ≠ row.key) =
      front.map PunchEventRow.timing := by
  have apart : ∀ other ∈ front.map PunchEventRow.timing, decide (other.1 ≠ row.key) = true := by
    rw [List.map_append, List.map_cons, List.nodup_middle, List.nodup_cons] at keys
    intro other member
    obtain ⟨earlier, inside, rfl⟩ := List.mem_map.mp member
    refine decide_eq_true fun same => keys.1 (List.mem_append_left _ ?_)
    exact List.mem_map.mpr ⟨earlier, inside, same⟩
  rw [List.map_append, List.takeWhile_append_of_pos apart, List.map_cons,
    List.takeWhile_cons_of_neg (by simp [PunchEventRow.timing]), List.append_nil]

/-- The direction of a stored punch. -/
theorem direction_eq {db after : Database} (continues : Continues person db after)
    (valid : after.WellFormed) (member : row ∈ newPunches db after person) :
    row.direction =
      turn^[turnsBefore db person ((newPunches db after person).map PunchEventRow.timing) row.timing]
        (follow (lastDirection db.punchEvent person row.effectiveAt)) := by
  obtain ⟨added, rows, chained, same⟩ := continues.newPunches
  rw [same] at member ⊢
  obtain ⟨inside, own⟩ := List.mem_filter.mp member
  obtain ⟨front, back, rfl⟩ := List.append_of_mem inside
  obtain ⟨early, derived, -⟩ := Chained.append_iff.mp chained
  have keys : (((front ++ row :: back).filter (PunchEventRow.isOf · person)).map
      PunchEventRow.key).Nodup := by
    have all := valid.keys
    rw [Database.keys, rows, List.map_append] at all
    exact (List.nodup_append.mp all).2.1.sublist (List.filter_sublist.map _)
  rw [List.filter_append, List.filter_cons_of_pos (p := (PunchEventRow.isOf · person)) own] at keys ⊢
  rw [derived own, follow_lastDirection early, turnsBefore]
  change _ = turn^[records row.effectiveAt _ (List.map Prod.snd
    (List.takeWhile (fun other => decide (other.1 ≠ row.key)) _))] _
  rw [takeWhile_key keys, List.map_map]
  rfl

theorem iterate_turn (last : Option PunchDirection) (count : Nat) :
    turn^[count] (follow last) = if count % 2 = 0 then follow last else turn (follow last) := by
  have back : turn (turn (follow last)) = follow last := by
    cases last with
    | none => rfl
    | some direction => cases direction <;> rfl
  induction count with
  | zero => rfl
  | succ count ih =>
      rw [Function.iterate_succ_apply', ih]
      by_cases even : count % 2 = 0
      · rw [if_pos even, if_neg (by omega)]
      · rw [if_neg even, if_pos (by omega), back]

theorem iterate_turn_eq_iff (last : Option PunchDirection) (first second : Nat) :
    turn^[first] (follow last) = turn^[second] (follow last) ↔ first % 2 = second % 2 := by
  have other : turn (follow last) ≠ follow last := by
    cases last with
    | none => decide
    | some direction => cases direction <;> decide
  rw [iterate_turn, iterate_turn]
  by_cases even : first % 2 = 0 <;> by_cases otherEven : second % 2 = 0 <;>
    simp only [even, otherEven, if_true, if_false, other, other.symm, true_iff, false_iff] <;> omega

theorem ingestStep_wellFormed {sortSlice : SortSlice} {db after : Database} {input : IngestInput}
    (valid : db.WellFormed) (taken : ingestStep sortSlice db input = some after) : after.WellFormed := by
  cases input with
  | ingest dev req now =>
      obtain ⟨response, done⟩ := ingestStep_ingest taken
      exact (ingestBatch_effect done).wellFormed valid
  | reassign people credential deviceSlot =>
      cases taken
      exact ⟨valid.keys, valid.uuids⟩

theorem eq_of_key {db after : Database} (valid : after.WellFormed) {first second : PunchEventRow}
    (left : first ∈ newPunches db after person) (right : second ∈ newPunches db after person)
    (same : first.key = second.key) : first = second := by
  have stored : ∀ row ∈ newPunches db after person, row ∈ after.punchEvent := fun row member =>
    List.mem_of_mem_drop (List.mem_filter.mp member).1
  exact List.inj_on_of_nodup_map valid.keys (stored _ left) (stored _ right) same

/-- Two orders of upload store the same directions exactly when every punch found the
latest one before it changed equally often, up to pairs of changes. -/
theorem directions_agree_iff (sortSlice : SortSlice) (db : Database) (person : Uuid)
    (first second : List IngestInput) (left right : Database) (valid : db.WellFormed)
    (bidirectional : ∀ input ∈ first ++ second, Bidirectional input)
    (ranFirst : run (ingestStep sortSlice) db first = some left)
    (ranSecond : run (ingestStep sortSlice) db second = some right)
    (same : ((newPunches db left person).map PunchEventRow.timing).Perm
      ((newPunches db right person).map PunchEventRow.timing)) :
    (∀ row ∈ newPunches db left person, ∀ other ∈ newPunches db right person,
      row.key = other.key → row.direction = other.direction) ↔
    ∀ punch ∈ (newPunches db left person).map PunchEventRow.timing,
      turnsBefore db person ((newPunches db left person).map PunchEventRow.timing) punch % 2 =
        turnsBefore db person ((newPunches db right person).map PunchEventRow.timing) punch % 2 := by
  have validLeft := run_invariant (fun _ _ _ valid taken => ingestStep_wellFormed valid taken) valid ranFirst
  have validRight := run_invariant (fun _ _ _ valid taken => ingestStep_wellFormed valid taken) valid ranSecond
  obtain ⟨modesFirst, modesSecond⟩ := List.forall_mem_append.mp bidirectional
  have early := @run_continues person _ _ _ _ modesFirst ranFirst
  have late := @run_continues person _ _ _ _ modesSecond ranSecond
  -- the same punch, in both tables
  have agree : ∀ row ∈ newPunches db left person, ∀ other ∈ newPunches db right person,
      row.timing = other.timing → (row.direction = other.direction ↔
        turnsBefore db person ((newPunches db left person).map PunchEventRow.timing) row.timing % 2 =
          turnsBefore db person ((newPunches db right person).map PunchEventRow.timing) row.timing % 2) := by
    intro row member other otherMember timing
    have instants : row.effectiveAt = other.effectiveAt := congrArg Prod.snd timing
    rw [direction_eq early validLeft member, direction_eq late validRight otherMember, ← timing,
      ← instants, iterate_turn_eq_iff]
  constructor
  · intro directions punch member
    obtain ⟨row, stored, rfl⟩ := List.mem_map.mp member
    obtain ⟨other, otherStored, timing⟩ := List.mem_map.mp (same.mem_iff.mp member)
    exact (agree row stored other otherStored timing.symm).mp
      (directions row stored other otherStored (congrArg Prod.fst timing.symm))
  · intro parity row stored other otherStored keys
    have member : row.timing ∈ (newPunches db left person).map PunchEventRow.timing :=
      List.mem_map_of_mem stored
    obtain ⟨copy, copyStored, timing⟩ := List.mem_map.mp (same.mem_iff.mp member)
    have alike : copy = other := eq_of_key validRight copyStored otherStored
      ((congrArg Prod.fst timing).trans keys)
    exact (agree row stored other otherStored (alike ▸ timing.symm)).mpr (parity row.timing member)

/-! A person enrolled on two readers; the punches of one day, each uploaded on its own. -/

def enrolled : Database :=
  { emptyDatabase with
    person := [⟨5, none⟩]
    credential := [⟨6, 2, 5, none, none⟩]
    deviceSlot := [⟨1, 7, 6, 5, 0, none⟩, ⟨3, 7, 6, 5, 0, none⟩] }

def upload (device : Uuid) (seq : Int) (eventUuid : String) (hours : Int) : IngestInput :=
  .ingest { sampleDevice with id := device }
    ⟨"0a1b2c3d-0000-4000-8000-000000000001", 5000, 0,
      [{ samplePunch seq eventUuid with capturedAt := ⟨hours * hour, 0⟩ }]⟩ ⟨20 * hour, 0⟩

def morning : IngestInput := upload 1 1 "0a1b2c3d-0000-4000-8000-000000000002" 8

def noon : IngestInput := upload 1 2 "0a1b2c3d-0000-4000-8000-000000000003" 12

def evening : IngestInput := upload 3 1 "0a1b2c3d-0000-4000-8000-000000000004" 17

def whenAndWhere (row : PunchEventRow) : Uuid × Int × PunchDirection :=
  (row.deviceId, row.effectiveAt / hour, row.direction)

/-- The reader that saw the arrival was offline until the evening. -/
theorem backfill_changes_directions :
    ∃ left right, run (ingestStep sortBySeq) enrolled [morning, evening] = some left ∧
      run (ingestStep sortBySeq) enrolled [evening, morning] = some right ∧
      (newPunches enrolled left 5).map whenAndWhere = [(1, 8, .in), (3, 17, .out)] ∧
      (newPunches enrolled right 5).map whenAndWhere = [(3, 17, .in), (1, 8, .in)] ∧
      ¬ ∀ row ∈ newPunches enrolled left 5, ∀ other ∈ newPunches enrolled right 5,
        row.key = other.key → row.direction = other.direction := by
  refine ⟨_, _, rfl, rfl, by decide +kernel, by decide +kernel, ?_⟩
  decide +kernel

/-- A punch that comes before the two it follows is the same in the end. -/
theorem directions_agree_iff_day :
    ∃ left right, run (ingestStep sortBySeq) enrolled [morning, noon, evening] = some left ∧
      run (ingestStep sortBySeq) enrolled [evening, morning, noon] = some right ∧
      ∀ row ∈ newPunches enrolled left 5, ∀ other ∈ newPunches enrolled right 5,
        row.key = other.key → row.direction = other.direction := by
  refine ⟨_, _, rfl, rfl, ?_⟩
  refine (directions_agree_iff sortBySeq enrolled 5 [morning, noon, evening] [evening, morning, noon]
    _ _ ⟨List.nodup_nil, List.nodup_nil⟩ ?_ rfl rfl (by decide +kernel)).mpr (by decide +kernel)
  simp [Bidirectional, morning, noon, evening, upload, sampleDevice]

end Presence.Gateway
