import Presence.Attendance.PairSpec

namespace Presence.Attendance

open Presence.Go

/-! # Spans in a row

The spans of one person follow one another, and lie between the first punch and the
last.
-/

def totalDuration : List Span → Int
  | [] => 0
  | span :: spans => span.duration + totalDuration spans

theorem totalDuration_perm {first second : List Span} (perm : first.Perm second) :
    totalDuration first = totalDuration second := by
  induction perm with
  | nil => rfl
  | cons span _ ih => rw [totalDuration, totalDuration, ih]
  | swap left right rest => exact Int.add_left_comm ..
  | trans _ _ before after => exact before.trans after

theorem totalDuration_nonneg {spans : List Span} (lasting : ∀ span ∈ spans, 0 ≤ span.duration) :
    0 ≤ totalDuration spans := by
  induction spans with
  | nil => exact le_rfl
  | cons span spans ih =>
      obtain ⟨first, others⟩ := List.forall_mem_cons.mp lasting
      exact Int.add_nonneg first (ih others)

theorem totalDuration_le_of_sublist {some all : List Span} (sub : some.Sublist all)
    (lasting : ∀ span ∈ all, 0 ≤ span.duration) : totalDuration some ≤ totalDuration all := by
  induction sub with
  | slnil => exact le_rfl
  | cons span _ ih =>
      obtain ⟨first, others⟩ := List.forall_mem_cons.mp lasting
      exact (ih others).trans (Int.le_add_of_nonneg_left first)
  | cons_cons span _ ih =>
      obtain ⟨first, others⟩ := List.forall_mem_cons.mp lasting
      exact Int.add_le_add_left (ih others) _

theorem totalDuration_append (first second : List Span) :
    totalDuration (first ++ second) = totalDuration first + totalDuration second := by
  induction first with
  | nil => exact (Int.zero_add _).symm
  | cons span spans ih => rw [List.cons_append, totalDuration, totalDuration, ih, Int.add_assoc]

namespace Span

/-- The span has begun, and ended if it did, before the other begins. -/
def Precedes (earlier later : Span) : Prop :=
  earlier.startedAt ≤ later.startedAt ∧ ∀ ended ∈ earlier.endedAt, ended ≤ later.startedAt

/-- The span lies in a stretch of time, its end after its start. -/
structure Within (first last : Int) (span : Span) : Prop where
  begun : first ≤ span.startedAt
  started : span.startedAt ≤ last
  ended : ∀ ended ∈ span.endedAt, span.startedAt ≤ ended ∧ ended ≤ last

variable {span other : Span} {first last : Int}

theorem Within.later (within : span.Within first last) {later : Int} (le : last ≤ later) :
    span.Within first later :=
  ⟨within.begun, within.started.trans le, fun ended held =>
    ⟨(within.ended ended held).1, (within.ended ended held).2.trans le⟩⟩

theorem Within.before (within : span.Within first last) (precedes : span.Precedes other) :
    span.Within first other.startedAt :=
  ⟨within.begun, precedes.1, fun ended held => ⟨(within.ended ended held).1, precedes.2 ended held⟩⟩

theorem Within.duration_range (within : span.Within first last) :
    0 ≤ span.duration ∧ span.duration ≤ last - span.startedAt := by
  cases ended : span.endedAt with
  | none =>
      rw [duration, ended]
      exact ⟨Int.le_refl 0, Int.sub_nonneg_of_le within.started⟩
  | some instant =>
      have after := within.ended instant ended
      rw [duration, ended]
      dsimp only
      simp only [sub, minDuration, maxDuration]
      omega

/-- A stretch an `int64` of nanoseconds can measure is measured. -/
theorem Within.duration_eq (within : span.Within first last) (short : last - first ≤ maxDuration)
    {instant : Int} (ended : span.endedAt = some instant) : span.duration = instant - span.startedAt := by
  have after := within.ended instant ended
  have begun := within.begun
  rw [duration, ended]
  dsimp only
  simp only [sub]
  simp only [minDuration, maxDuration] at *
  omega

@[simp] theorem within_flag {anomaly : Anomaly} :
    (span.flag anomaly).Within first last ↔ span.Within first last := by
  constructor <;> rintro ⟨begun, started, ended⟩ <;>
    exact ⟨by simpa using begun, by simpa using started, by simpa using ended⟩

@[simp] theorem precedes_flag {anomaly : Anomaly} :
    (span.flag anomaly).Precedes other ↔ span.Precedes other := by
  simp [Precedes]

end Span

/-- Spans in a row, the newest first, are together no longer than the stretch they lie in. -/
theorem totalDuration_le {spans : List Span} {first last : Int} (forward : first ≤ last)
    (row : spans.Pairwise fun later earlier => earlier.Precedes later)
    (within : ∀ span ∈ spans, span.Within first last) : totalDuration spans ≤ last - first := by
  induction spans generalizing last with
  | nil => exact Int.sub_nonneg_of_le forward
  | cons span spans ih =>
      obtain ⟨newest, rest⟩ := List.pairwise_cons.mp row
      obtain ⟨here, others⟩ := List.forall_mem_cons.mp within
      have before := ih here.begun rest fun other listed => (others other listed).before (newest other listed)
      have long := here.duration_range.2
      rw [totalDuration]
      omega

theorem totalDuration_le_of_row {spans : List Span} {first last : Int} (forward : first ≤ last)
    (row : spans.Pairwise Span.Precedes) (within : ∀ span ∈ spans, span.Within first last) :
    totalDuration spans ≤ last - first := by
  rw [← totalDuration_perm spans.reverse_perm]
  exact totalDuration_le forward (List.pairwise_reverse.mpr row)
    fun span listed => within span (List.mem_reverse.mp listed)

/-! ## What `Pair` has put together so far -/

namespace Pairing

variable {rules : Rules} {state : Pairing} {punch : Punch} {first now : Int}

/-- The spans so far follow one another from the first punch on, and the open one
follows them all. -/
structure Chronicle (first now : Int) (state : Pairing) : Prop where
  row : state.spans.Pairwise fun later earlier => earlier.Precedes later
  within : ∀ span ∈ state.spans, span.Within first now
  opened : ∀ span ∈ state.opened, span.endedAt = none ∧ span.Within first now ∧
    ∀ earlier ∈ state.spans, earlier.Precedes span

theorem Chronicle.later (chronicle : state.Chronicle first now) {later : Int} (le : now ≤ later) :
    state.Chronicle first later where
  row := chronicle.row
  within := fun span listed => (chronicle.within span listed).later le
  opened := fun span held =>
    ⟨(chronicle.opened span held).1, (chronicle.opened span held).2.1.later le,
      (chronicle.opened span held).2.2⟩

/-- One more span, and none open. -/
theorem chronicle_cons {span : Span} {spans : List Span} {last : Option (Direction × Int)}
    (row : spans.Pairwise fun later earlier => earlier.Precedes later)
    (within : ∀ other ∈ spans, other.Within first now) (newest : ∀ other ∈ spans, other.Precedes span)
    (here : span.Within first now) : Chronicle first now ⟨span :: spans, none, last⟩ where
  row := List.pairwise_cons.mpr ⟨newest, row⟩
  within := List.forall_mem_cons.mpr ⟨here, within⟩
  opened := fun _ held => absurd held (Option.not_mem_none _)

theorem Chronicle.flagDuplicate (chronicle : state.Chronicle first now) :
    state.flagDuplicate.Chronicle first now := by
  obtain ⟨spans, opened, last⟩ := state
  cases opened with
  | some span =>
      obtain ⟨still, within, newest⟩ := chronicle.opened span rfl
      refine ⟨chronicle.row, chronicle.within, ?_⟩
      rintro flagged ⟨⟩
      refine ⟨by simpa using still, by simpa using within, fun earlier listed => ?_⟩
      simpa [Span.Precedes] using newest earlier listed
  | none =>
      cases spans with
      | nil => exact chronicle
      | cons span spans =>
          obtain ⟨newest, rest⟩ := List.pairwise_cons.mp chronicle.row
          obtain ⟨here, others⟩ := List.forall_mem_cons.mp chronicle.within
          refine chronicle_cons rest others (fun other listed => ?_) (by simpa using here)
          simpa [Span.Precedes] using newest other listed

theorem Chronicle.abandon (chronicle : state.Chronicle first now) : state.abandon.Chronicle first now := by
  obtain ⟨spans, opened, last⟩ := state
  cases opened with
  | none => exact chronicle
  | some span =>
      obtain ⟨-, within, newest⟩ := chronicle.opened span rfl
      refine chronicle_cons chronicle.row chronicle.within (fun other listed => ?_) (by simpa using within)
      simpa [Span.Precedes] using newest other listed

/-- What lies in the past precedes a span that starts now. -/
theorem Chronicle.precedes (chronicle : state.Chronicle first now) (later : now ≤ punch.instant)
    {span : Span} (starts : span.startedAt = punch.instant) :
    ∀ earlier ∈ state.spans, earlier.Precedes span := by
  intro earlier listed
  have within := chronicle.within earlier listed
  rw [Span.Precedes, starts]
  exact ⟨within.started.trans later, fun ended held => (within.ended ended held).2.trans later⟩

theorem Chronicle.advance (chronicle : state.Chronicle first now) (begun : first ≤ punch.instant)
    (later : now ≤ punch.instant) : (state.advance rules punch).Chronicle first punch.instant := by
  have past := chronicle.later later
  cases repeated : state.repeats rules punch with
  | true =>
      rw [advance_repeat repeated]
      obtain ⟨row, within, opened⟩ := past.flagDuplicate
      exact ⟨row, within, opened⟩
  | false =>
      cases direction : punch.direction with
      | «in» =>
          rw [advance_in repeated direction]
          refine ⟨past.abandon.row, past.abandon.within, ?_⟩
          rintro span ⟨⟩
          refine ⟨by simp [arrival], ⟨by simpa using begun, by simp, by simp [arrival]⟩,
            chronicle.abandon.precedes later arrival_startedAt⟩
      | out =>
          cases opened : state.opened with
          | none =>
              rw [advance_orphan repeated direction opened]
              have ends : (orphan punch).endedAt = some punch.instant := by simp [orphan]
              refine chronicle_cons past.row past.within (chronicle.precedes later orphan_startedAt)
                ⟨by simpa using begun, by simp, fun ended held => ?_⟩
              rw [ends, Option.mem_some] at held
              rw [orphan_startedAt]
              omega
          | some span =>
              rw [advance_close repeated direction opened]
              obtain ⟨-, within, newest⟩ := past.opened span opened
              refine chronicle_cons past.row past.within (fun other listed => ?_)
                ⟨by simpa using within.begun, by simpa using within.started, fun ended held => ?_⟩
              · simpa [Span.Precedes] using newest other listed
              · rw [close_endedAt, Option.mem_some] at held
                rw [close_startedAt, ← held]
                exact ⟨within.started, le_rfl⟩

theorem chronicle_foldl {punches : List Punch} {last : Int} (sorted : punches.Pairwise precedes)
    (begun : ∀ punch ∈ punches, first ≤ punch.instant) (later : ∀ punch ∈ punches, now ≤ punch.instant)
    (ended : ∀ punch ∈ punches, punch.instant ≤ last) (soon : now ≤ last)
    (chronicle : state.Chronicle first now) :
    (punches.foldl (advance rules) state).Chronicle first last := by
  induction punches generalizing state now with
  | nil => exact chronicle.later soon
  | cons punch punches ih =>
      obtain ⟨before, rest⟩ := List.pairwise_cons.mp sorted
      obtain ⟨begins, begin⟩ := List.forall_mem_cons.mp begun
      obtain ⟨ends, ends'⟩ := List.forall_mem_cons.mp ended
      refine ih rest begin (fun other listed => ?_) ends' ends
        (chronicle.advance begins (later punch (List.mem_cons_self ..)))
      have order := before other listed
      simp only [precedes] at order
      omega

end Pairing

variable {punches : List Punch} {first last : Int}

theorem pair_chronicle (rules : Rules) (begun : ∀ punch ∈ punches, first ≤ punch.instant)
    (ended : ∀ punch ∈ punches, punch.instant ≤ last) (forward : first ≤ last) :
    (pair punches rules).Pairwise Span.Precedes ∧ ∀ span ∈ pair punches rules, span.Within first last := by
  have begins : ∀ punch ∈ punches.insertionSort precedes, first ≤ punch.instant :=
    fun punch listed => begun punch ((List.mem_insertionSort precedes).mp listed)
  have ends : ∀ punch ∈ punches.insertionSort precedes, punch.instant ≤ last :=
    fun punch listed => ended punch ((List.mem_insertionSort precedes).mp listed)
  have start : Pairing.start.Chronicle first first :=
    ⟨.nil, fun _ listed => absurd listed List.not_mem_nil, fun _ held => absurd held (Option.not_mem_none _)⟩
  have sorted := List.pairwise_insertionSort precedes punches
  have folded : ((punches.insertionSort precedes).foldl (Pairing.advance rules)
      Pairing.start).Chronicle first last :=
    Pairing.chronicle_foldl sorted begins begins ends forward start
  exact ⟨List.pairwise_reverse.mpr folded.abandon.row,
    fun span listed => folded.abandon.within span (List.mem_reverse.mp listed)⟩

end Presence.Attendance
