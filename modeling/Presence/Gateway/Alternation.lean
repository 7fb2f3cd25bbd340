import Presence.Gateway.Direction

namespace Presence.Gateway

open Presence.Data Presence.Go Presence.Postgres

/-! # Directions alternate

As long as the punches of a person come in the order they were made, the latest one
stored is the one before, and each goes the other way.
-/

/-- The resolved punches of a person, in the order they were stored. -/
def punchesOf (rows : List PunchEventRow) (person : Uuid) : List PunchEventRow :=
  rows.filter (PunchEventRow.isOf · person)

def Rising (punches : List PunchEventRow) : Prop :=
  punches.Pairwise fun earlier later => earlier.effectiveAt < later.effectiveAt

def byEffectiveTime (punches : List PunchEventRow) : List PunchEventRow :=
  punches.insertionSort fun first second => first.effectiveAt ≤ second.effectiveAt

/-- In, out, in, out and so on. -/
def alternation (count : Nat) : List PunchDirection :=
  (List.range count).map fun index => if index % 2 = 0 then .in else .out

def Alternates (punches : List PunchEventRow) : Prop :=
  punches.map PunchEventRow.direction = alternation punches.length

variable {rows added : List PunchEventRow} {row : PunchEventRow} {person : Uuid} {before : Int}

/-! ## One punch -/

theorem punchesOf_append (rows added : List PunchEventRow) (person : Uuid) :
    punchesOf (rows ++ added) person = punchesOf rows person ++ punchesOf added person :=
  List.filter_append ..

theorem alternation_succ (count : Nat) :
    alternation (count + 1) = alternation count ++ [if count % 2 = 0 then .in else .out] := by
  simp [alternation, List.range_succ]

/-- The latest of punches that rise is the last one stored. -/
theorem latestResolved_rising (rising : Rising (punchesOf rows person))
    (early : ∀ row ∈ punchesOf rows person, row.effectiveAt < before) :
    latestResolved rows person before = (punchesOf rows person).getLast? := by
  induction rows using List.reverseRecOn with
  | nil => rfl
  | append_singleton rows last ih =>
      rw [punchesOf_append] at rising early ⊢
      obtain ⟨front, -, ordered⟩ := List.pairwise_append.mp rising
      obtain ⟨frontEarly, lastEarly⟩ := List.forall_mem_append.mp early
      rw [latestResolved_concat, ih front frontEarly]
      by_cases own : last.isOf person = true
      · have kept : punchesOf [last] person = [last] := List.filter_cons_of_pos own
        rw [kept] at ordered lastEarly ⊢
        have takes : Takes last person before (punchesOf rows person).getLast? := by
          refine ⟨own, lastEarly last (List.mem_singleton_self last), ?_⟩
          rw [Option.all_eq_true]
          intro found latest
          exact decide_eq_true (ordered found (List.mem_of_getLast? latest) last
            (List.mem_singleton_self last))
        rw [if_pos takes, List.getLast?_concat]
      · have dropped : punchesOf [last] person = [] := List.filter_cons_of_neg own
        rw [if_neg fun takes => own takes.1, dropped, List.append_nil]

/-- The next direction after an alternation. -/
theorem follow_getLast {punches : List PunchEventRow} (alternates : Alternates punches) :
    follow (punches.getLast?.map PunchEventRow.direction) =
      if punches.length % 2 = 0 then .in else .out := by
  have last := congrArg List.getLast? alternates
  rw [List.getLast?_map] at last
  rw [last]
  cases punches.length with
  | zero => rfl
  | succ count =>
      rw [alternation_succ, List.getLast?_concat]
      by_cases even : count % 2 = 0
      · rw [if_pos even, if_neg (by omega), follow]
      · rw [if_neg even, if_pos (by omega)]
        rfl

theorem Alternates.concat {punches : List PunchEventRow} (alternates : Alternates punches)
    (next : row.direction = if punches.length % 2 = 0 then .in else .out) :
    Alternates (punches ++ [row]) := by
  simp only [Alternates] at *
  rw [List.map_append, alternates, List.length_append, List.length_singleton, alternation_succ,
    List.map_singleton, next]

/-- What one call stores goes on alternating. -/
theorem Alternates.append (alternates : Alternates (punchesOf rows person))
    (chained : Chained person rows added) (rising : Rising (punchesOf (rows ++ added) person)) :
    Alternates (punchesOf (rows ++ added) person) := by
  induction added using List.reverseRecOn with
  | nil => rwa [List.append_nil]
  | append_singleton added last ih =>
      obtain ⟨front, back⟩ := Chained.append_iff.mp chained
      obtain ⟨derived, -⟩ := back
      rw [← List.append_assoc, punchesOf_append] at rising ⊢
      obtain ⟨frontRising, -, ordered⟩ := List.pairwise_append.mp rising
      have before := ih front frontRising
      by_cases own : last.isOf person = true
      · have kept : punchesOf [last] person = [last] := List.filter_cons_of_pos own
        rw [kept] at ordered ⊢
        have early : ∀ row ∈ punchesOf (rows ++ added) person, row.effectiveAt < last.effectiveAt :=
          fun row member => ordered row member last (List.mem_singleton_self last)
        apply before.concat
        rw [derived own, lastDirection, latestResolved_rising frontRising early, follow_getLast before]
      · have dropped : punchesOf [last] person = [] := List.filter_cons_of_neg own
        rw [dropped, List.append_nil]
        exact before

/-! ## Runs -/

/-- A call that fails leaves the tables as they were. -/
def attempt (sortSlice : SortSlice) (db : Database) (input : IngestInput) : Option Database :=
  some ((ingestStep sortSlice db input).getD db)

/-- A call that stores punches of the person comes from a bidirectional reader, and it
stores them in the order of their effective times, after all that are stored. -/
def InOrder (sortSlice : SortSlice) (person : Uuid) (db : Database) (input : IngestInput) : Prop :=
  ∀ after, ingestStep sortSlice db input = some after →
    punchesOf after.punchEvent person ≠ punchesOf db.punchEvent person →
      Bidirectional input ∧ Rising (punchesOf after.punchEvent person)

instance : DecidablePred Bidirectional
  | .ingest dev _ _ => inferInstanceAs (Decidable (dev.mode = .bidirectional))
  | .reassign _ _ _ => .isTrue trivial

instance (sortSlice : SortSlice) (person : Uuid) (db : Database) (input : IngestInput) :
    Decidable (InOrder sortSlice person db input) :=
  match taken : ingestStep sortSlice db input with
  | none => .isTrue fun after other => by
      rw [taken] at other
      cases other
  | some after =>
      have : Decidable (Rising (punchesOf after.punchEvent person)) :=
        inferInstanceAs (Decidable (List.Pairwise _ _))
      decidable_of_iff (punchesOf after.punchEvent person ≠ punchesOf db.punchEvent person →
          Bidirectional input ∧ Rising (punchesOf after.punchEvent person))
        ⟨fun met other same => by
          rw [taken] at same
          cases same
          exact met,
        fun met => met after taken⟩

structure InAndOut (person : Uuid) (db : Database) : Prop where
  rising : Rising (punchesOf db.punchEvent person)
  alternates : Alternates (punchesOf db.punchEvent person)

theorem InAndOut.attempt {sortSlice : SortSlice} {db after : Database} {input : IngestInput}
    (inAndOut : InAndOut person db) (inOrder : InOrder sortSlice person db input)
    (taken : attempt sortSlice db input = some after) : InAndOut person after := by
  simp only [Gateway.attempt] at taken
  cases stepped : ingestStep sortSlice db input with
  | none =>
      rw [stepped] at taken
      cases taken
      exact inAndOut
  | some next =>
      rw [stepped] at taken
      cases taken
      change InAndOut person next
      by_cases same : punchesOf next.punchEvent person = punchesOf db.punchEvent person
      · exact ⟨same ▸ inAndOut.rising, same ▸ inAndOut.alternates⟩
      · obtain ⟨bidirectional, rising⟩ := inOrder next stepped same
        obtain ⟨added, stored, chained⟩ := @ingestStep_continues person _ _ _ _ bidirectional stepped
        rw [stored] at rising
        refine ⟨stored ▸ rising, ?_⟩
        rw [stored]
        exact inAndOut.alternates.append chained rising

/-- Along every run that stores a person's resolved punches in the order they were made,
from a table that has none, they go in, out, in, out. -/
theorem directions_alternate (sortSlice : SortSlice) (person : Uuid) (start final : Database)
    (inputs : List IngestInput) (none : punchesOf start.punchEvent person = [])
    (along : Along (attempt sortSlice) (InOrder sortSlice person) start inputs)
    (ran : run (attempt sortSlice) start inputs = some final) :
    (byEffectiveTime (punchesOf final.punchEvent person)).map PunchEventRow.direction =
      alternation (punchesOf final.punchEvent person).length := by
  have first : InAndOut person start := by
    constructor
    · rw [none]
      exact List.Pairwise.nil
    · rw [none]
      rfl
  have last := Along.invariant (fun _ _ _ inAndOut met taken => InAndOut.attempt inAndOut met taken)
    first along ran
  have sorted : byEffectiveTime (punchesOf final.punchEvent person) =
      punchesOf final.punchEvent person :=
    (last.rising.imp Int.le_of_lt).insertionSort_eq
  rw [sorted]
  exact last.alternates

/-- A day on two readers, with an upload that is sent twice. -/
theorem directions_alternate_day :
    ∃ final, run (attempt sortBySeq) enrolled [morning, noon, morning, evening] = some final ∧
      (byEffectiveTime (punchesOf final.punchEvent 5)).map PunchEventRow.direction =
        alternation (punchesOf final.punchEvent 5).length :=
  have ⟨final, ran⟩ : ∃ final,
      run (attempt sortBySeq) enrolled [morning, noon, morning, evening] = some final := ⟨_, rfl⟩
  ⟨final, ran, directions_alternate sortBySeq 5 enrolled final [morning, noon, morning, evening] rfl
    (by decide +kernel) ran⟩

end Presence.Gateway
