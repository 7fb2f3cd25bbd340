import Mathlib.Data.Finset.Max
import Presence.Attendance.Durations

namespace Presence.Attendance

open Presence.Data Presence.Go

/-! # Hours

The spans of one person follow one another, so no moment is counted twice and all of
them together fit between the first punch and the last.  Grouping and adding up by
day loses nothing of that, and none of it depends on the order the punches come in.
-/

/-- Permuted punches give the same spans and the same days. -/
theorem pair_eq_of_perm {first second : List Punch} (perm : first.Perm second)
    (distinct : (first.map Punch.eventId).Nodup) (rules : Rules) (schedule : Time → Option Schedule) :
    pair first rules = pair second rules ∧
      (groupByBusinessDate (pair first rules) rules).map
          (fun bucket => rollup bucket.1 bucket.2 (schedule bucket.1) rules) =
        (groupByBusinessDate (pair second rules) rules).map
          (fun bucket => rollup bucket.1 bucket.2 (schedule bucket.1) rules) := by
  have same := pair_perm rules distinct perm
  exact ⟨same, by rw [same]⟩

/-- A shift, and the arrival after it, out of order. -/
def shuffledShift : List Punch :=
  [⟨3, 18 * hour, .in, .high⟩, ⟨1, 8 * hour, .in, .high⟩, ⟨2, 17 * hour, .out, .low⟩]

theorem pair_shuffledShift_reverse :
    pair shuffledShift (defaultRules (.fixed 0)) = pair shuffledShift.reverse (defaultRules (.fixed 0)) :=
  (pair_eq_of_perm (List.reverse_perm shuffledShift).symm (by decide) _ fun _ => none).1

/-! ## Days -/

/-- `Total` over several days. -/
def totalOfDays : List Day → Int
  | [] => 0
  | day :: days => day.total + totalOfDays days

/-- Days that each add up without overflow add up to the spans of them all. -/
theorem totalOfDays_rollup {buckets : List (Time × List Span)} {rules : Rules}
    {schedule : Time → Option Schedule}
    (exact : ∀ bucket ∈ buckets,
      (rollup bucket.1 bucket.2 (schedule bucket.1) rules).total = totalDuration bucket.2) :
    totalOfDays (buckets.map fun bucket => rollup bucket.1 bucket.2 (schedule bucket.1) rules) =
      totalDuration (buckets.flatMap Prod.snd) := by
  induction buckets with
  | nil => rfl
  | cons bucket buckets ih =>
      obtain ⟨here, others⟩ := List.forall_mem_cons.mp exact
      rw [List.map_cons, totalOfDays, here, ih others, List.flatMap_cons, totalDuration_append]

theorem valuesOf_groupByBusinessDate (spans : List Span) (rules : Rules) (date : Time) :
    valuesOf date (groupByBusinessDate spans rules) =
      spans.filter (fun span => businessDate span.startedAt rules = date) :=
  (valuesOf_groupBy _ _ _ _).trans (List.map_id _)

theorem bucket_eq {spans : List Span} {rules : Rules} {bucket : Time × List Span}
    (member : bucket ∈ groupByBusinessDate spans rules) :
    bucket.2 = spans.filter (fun span => businessDate span.startedAt rules = bucket.1) := by
  rw [← valuesOf_groupByBusinessDate]
  exact (valuesOf_of_mem (groupBy_distinct _ _ _) member).symm

theorem existsUnique_bucket {spans : List Span} (rules : Rules) {span : Span} (listed : span ∈ spans) :
    ∃! bucket, bucket ∈ groupByBusinessDate spans rules ∧ span ∈ bucket.2 := by
  have filled : span ∈ valuesOf (businessDate span.startedAt rules) (groupByBusinessDate spans rules) := by
    rw [valuesOf_groupByBusinessDate]
    exact List.mem_filter.mpr ⟨listed, decide_eq_true rfl⟩
  refine ⟨_, ⟨mem_of_valuesOf (List.ne_nil_of_mem filled), filled⟩, ?_⟩
  rintro ⟨date, held⟩ ⟨member, inside⟩
  have filtered : held = spans.filter _ := bucket_eq member
  rw [filtered, List.mem_filter, decide_eq_true_iff] at inside
  obtain ⟨-, rfl⟩ := inside
  rw [filtered, valuesOf_groupByBusinessDate]

/-- Hours are neither invented nor counted twice. -/
theorem hours_conserved (punches : List Punch) (rules : Rules)
    (distinct : (punches.map Punch.eventId).Nodup)
    (within : ∀ early ∈ punches, ∀ late ∈ punches, late.instant - early.instant ≤ maxDuration)
    (schedule : Time → Option Schedule) :
    (pair punches rules).Pairwise Span.Precedes ∧
      (∀ span ∈ pair punches rules, ∀ ended ∈ span.endedAt,
        span.startedAt ≤ ended ∧ span.duration = ended - span.startedAt) ∧
      (∀ span ∈ pair punches rules,
        ∃! bucket, bucket ∈ groupByBusinessDate (pair punches rules) rules ∧ span ∈ bucket.2) ∧
      ((groupByBusinessDate (pair punches rules) rules).flatMap Prod.snd).Perm (pair punches rules) ∧
      totalOfDays ((groupByBusinessDate (pair punches rules) rules).map fun bucket =>
        rollup bucket.1 bucket.2 (schedule bucket.1) rules) = totalDuration (pair punches rules) ∧
      ∀ early ∈ punches, ∀ late ∈ punches,
        (∀ punch ∈ punches, early.instant ≤ punch.instant ∧ punch.instant ≤ late.instant) →
          totalDuration (pair punches rules) ≤ late.instant - early.instant := by
  rcases eq_or_ne punches [] with rfl | some
  · simp [pair, Pairing.start, Pairing.abandon, groupByBusinessDate, groupBy, totalOfDays, totalDuration]
  have nonempty : punches.toFinset.Nonempty := List.toFinset_nonempty_iff punches |>.mpr some
  obtain ⟨first, here, earliest⟩ := punches.toFinset.exists_min_image Punch.instant nonempty
  obtain ⟨last, there, latest⟩ := punches.toFinset.exists_max_image Punch.instant nonempty
  simp only [List.mem_toFinset] at here earliest there latest
  obtain ⟨row, inside⟩ := pair_chronicle rules earliest latest (earliest last there)
  have short := within first here last there
  have lasting : ∀ span ∈ pair punches rules, 0 ≤ span.duration :=
    fun span listed => (inside span listed).duration_range.1
  have total := totalDuration_le_of_row (earliest last there) row inside
  have grouped := groupByBusinessDate_perm (pair punches rules) rules
  refine ⟨row, fun span listed ended held => ⟨((inside span listed).ended ended held).1,
    (inside span listed).duration_eq short held⟩, fun span listed => existsUnique_bucket rules listed,
    grouped, ?_, ?_⟩
  · rw [totalOfDays_rollup, totalDuration_perm grouped]
    intro bucket member
    have kept : bucket.2.Sublist (pair punches rules) := by
      rw [bucket_eq member]
      exact List.filter_sublist
    apply rollup_total _ _ _ (fun span listed => lasting span (kept.subset listed))
    exact (totalDuration_le_of_sublist kept lasting).trans (total.trans short)
  · intro early _ late _ bounds
    have before := (bounds first here).1
    have after := (bounds last there).2
    omega

theorem hours_conserved_shuffledShift :
    (pair shuffledShift (defaultRules (.fixed 0))).Pairwise Span.Precedes ∧
      totalDuration (pair shuffledShift (defaultRules (.fixed 0))) ≤ 18 * hour - 8 * hour := by
  obtain ⟨row, -, -, -, -, total⟩ := hours_conserved shuffledShift (defaultRules (.fixed 0)) (by decide)
    (by decide) fun _ => none
  exact ⟨row, total ⟨1, 8 * hour, .in, .high⟩ (by decide) ⟨3, 18 * hour, .in, .high⟩ (by decide)
    (by decide)⟩

end Presence.Attendance
