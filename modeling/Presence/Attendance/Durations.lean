import Mathlib.Algebra.Order.BigOperators.Group.List
import Presence.Attendance.Chronicle
import Presence.Attendance.Progress

namespace Presence.Attendance

open Presence.Data Presence.Go Presence.Gateway Presence.Postgres

/-! # Durations that fit their columns

Spans of one person do not overlap, so the durations of a day add up to no more than
the time between the first punch and the last.  With instants an `integer` of seconds
can hold, no total of a day overflows.
-/

/-- From 1970 to January 2038. -/
def Storable (instant : Int) : Prop := 0 ≤ instant ∧ instant ≤ (2 ^ 31 - 1) * second

/-- The spans of punches with storable instants are in order, and together no longer
than the last of the instants. -/
theorem pair_measured {punches : List Punch} (rules : Rules)
    (storable : ∀ punch ∈ punches, Storable punch.instant) :
    (∀ span ∈ pair punches rules, ∀ ended ∈ span.endedAt, span.startedAt ≤ ended) ∧
      (∀ span ∈ pair punches rules, 0 ≤ span.duration) ∧
      totalDuration (pair punches rules) ≤ (2 ^ 31 - 1) * second := by
  obtain ⟨row, inside⟩ := pair_chronicle rules (fun punch listed => (storable punch listed).1)
    (fun punch listed => (storable punch listed).2) (by decide)
  refine ⟨fun span listed ended held => ((inside span listed).ended ended held).1,
    fun span listed => (inside span listed).duration_range.1, ?_⟩
  have total := totalDuration_le_of_row (by decide) row inside
  rwa [Int.sub_zero] at total

/-! ## The rows of a person -/

theorem length_pair_le (punches : List Punch) (rules : Rules) :
    (pair punches rules).length ≤ punches.length := by
  have anchored : ((pair punches rules).flatMap Span.ids).Subperm (punches.map Punch.eventId) :=
    List.subperm_ext_iff.mpr fun id _ => count_ids_pair punches rules id
  have each : (pair punches rules).length ≤ ((pair punches rules).flatMap Span.ids).length := by
    rw [List.length_flatMap]
    have lengths := List.length_le_sum_of_one_le ((pair punches rules).map fun span => span.ids.length)
      (by
        intro length member
        obtain ⟨span, -, rfl⟩ := List.mem_map.mp member
        exact List.length_pos_iff.mpr span.ids_ne_nil)
    rwa [List.length_map] at lengths
  have all := anchored.length_le
  rw [List.length_map] at all
  exact each.trans all

theorem foldl_addSpan_total {spans : List Span} {day : Day}
    (lasting : ∀ span ∈ spans, 0 ≤ span.duration) (positive : 0 ≤ day.total)
    (short : day.total + totalDuration spans ≤ maxDuration) :
    (spans.foldl Day.addSpan day).total = day.total + totalDuration spans := by
  induction spans generalizing day with
  | nil => simp [totalDuration]
  | cons span spans ih =>
      obtain ⟨first, others⟩ := List.forall_mem_cons.mp lasting
      have rest := totalDuration_nonneg others
      rw [totalDuration] at short ⊢
      have added : (day.addSpan span).total = day.total + span.duration := by
        change wrap64 (day.total + span.duration) = _
        simp only [maxDuration] at short
        exact Int.bmod_eq_of_le (by omega) (by omega)
      rw [List.foldl_cons, ih others (by omega) (by omega), added]
      omega

variable {org : Uuid} {queried : Queried} {window : Window} {entry : String × List Punch}
  {group : Time × List Span}

/-- A day holds some of the spans. -/
theorem subperm_of_group (day : group ∈ queried.groups window entry.2) :
    group.2.Subperm (pair entry.2 queried.rules) := by
  have inside : group.2.Sublist ((queried.groups window entry.2).flatMap Prod.snd) := by
    rw [List.flatMap_def]
    exact List.sublist_flatten_of_mem (List.mem_map_of_mem day)
  have grouped := groupByBusinessDate_perm (pair entry.2 queried.rules) queried.rules
  exact (inside.trans (groups_sublist queried window entry.2)).subperm.trans grouped.subperm

theorem totalDuration_le_of_subperm {some all : List Span} (sub : some.Subperm all)
    (lasting : ∀ span ∈ all, 0 ≤ span.duration) : totalDuration some ≤ totalDuration all := by
  obtain ⟨same, perm, sublist⟩ := sub
  rw [← totalDuration_perm perm]
  exact totalDuration_le_of_sublist sublist lasting

theorem rollup_total {spans : List Span} (date : Time) (schedule : Option Schedule) (rules : Rules)
    (lasting : ∀ span ∈ spans, 0 ≤ span.duration) (short : totalDuration spans ≤ maxDuration) :
    (rollup date spans schedule rules).total = totalDuration spans := by
  obtain ⟨isLate, same⟩ := rollup_eq date spans schedule rules
  rw [same]
  change (spans.foldl Day.addSpan _).total = _
  rw [foldl_addSpan_total lasting le_rfl (by simpa using short)]
  exact Int.zero_add _

theorem foldl_addSpan_spanCount (spans : List Span) (day : Day) :
    (spans.foldl Day.addSpan day).spanCount = day.spanCount := by
  induction spans generalizing day with
  | nil => rfl
  | cons first rest ih => exact ih (day.addSpan first)

theorem rollup_spanCount (date : Time) (spans : List Span) (schedule : Option Schedule) (rules : Rules) :
    (rollup date spans schedule rules).spanCount = spans.length := by
  obtain ⟨isLate, same⟩ := rollup_eq date spans schedule rules
  rw [same]
  exact foldl_addSpan_spanCount spans _

theorem fits_of_span {person : String} {date : Time} {span : Span}
    (storable : span.Instants Storable) (ordered : ∀ ended ∈ span.endedAt, span.startedAt ≤ ended) :
    ((spanSnapshot person date span).row org).Fits := by
  have monotone : ∀ {first second : Int}, first ≤ second → timestamptz first ≤ timestamptz second := by
    intro first second le
    simp only [timestamptz]
    omega
  constructor
  · intro ended held
    obtain ⟨instant, closed, rfl⟩ := Option.map_eq_some_iff.mp held
    exact monotone (ordered instant closed)
  · intro duration held
    obtain ⟨ended, stored, rfl⟩ := Option.map_eq_some_iff.mp held
    obtain ⟨instant, closed, rfl⟩ := Option.map_eq_some_iff.mp stored
    have low := storable.1.1
    have high := (storable.2 instant closed).2
    have after := ordered instant closed
    change fitsInt4 ((2 * (timestamptz instant - timestamptz span.startedAt) + second) / (2 * second)) = true
    rw [fitsInt4, decide_eq_true_iff]
    simp only [timestamptz, second, millisecond] at *
    omega

theorem personFits_of_storable (storable : ∀ punch ∈ entry.2, Storable punch.instant)
    (few : entry.2.length < 2 ^ 31) : queried.PersonFits org window entry := by
  obtain ⟨ordered, lasting, total⟩ := pair_measured queried.rules storable
  have told := pair_instants queried.rules storable
  constructor
  · intro group day span listed
    have paired := mem_pair_of_group day listed
    exact fits_of_span (told span paired) (ordered span paired)
  · intro group day
    have sub := subperm_of_group day
    have shorter := totalDuration_le_of_subperm sub lasting
    have lasts : ∀ span ∈ group.2, 0 ≤ span.duration := fun span listed => lasting span (sub.subset listed)
    have positive := totalDuration_nonneg lasts
    have limit : (2 ^ 31 - 1) * second ≤ maxDuration := by decide
    constructor
    · change fitsInt4 (seconds (rollup group.1 group.2 _ queried.rules).total) = true
      rw [rollup_total _ _ _ lasts ((shorter.trans total).trans limit), fitsInt4, decide_eq_true_iff, seconds,
        Int.tdiv_eq_ediv_of_nonneg positive]
      simp only [second, millisecond] at *
      omega
    · change fitsInt4 ((rollup group.1 group.2 _ queried.rules).spanCount : Int) = true
      have fewer := sub.length_le.trans (length_pair_le entry.2 queried.rules)
      rw [rollup_spanCount, fitsInt4, decide_eq_true_iff]
      omega

end Presence.Attendance
