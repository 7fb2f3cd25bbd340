import Presence.Attendance.Engine

namespace Presence.Attendance

open Presence.Data Presence.Go

/-! # The padding of a window

Two runs of `Pair`, one over all punches and one over those the padding admits.  A
run is back in step with another before the window begins, and whatever follows
the padding leaves the spans of the window alone, as long as no closed span is
longer than the padding allows for.
-/

/-- What `DefaultRules` sets and no organisation changes. -/
structure Rules.Standard (rules : Rules) : Prop where
  duplicateWindow : rules.duplicateWindow = 90 * second
  maxPlausibleSpan : rules.maxPlausibleSpan = 16 * hour

namespace Pairing

variable {rules : Rules} {state : Pairing} {punch : Punch}

/-! ## One punch -/

theorem advance_repeat (repeated : state.repeats rules punch = true) :
    state.advance rules punch =
      { state.flagDuplicate with last := some (punch.direction, punch.instant) } := by
  simp [advance, repeated]

theorem advance_in (fresh : state.repeats rules punch = false) (arriving : punch.direction = .in) :
    state.advance rules punch =
      { state.abandon with opened := some (arrival punch), last := some (.in, punch.instant) } := by
  simp [advance, fresh, arriving]

theorem advance_orphan (fresh : state.repeats rules punch = false) (leaving : punch.direction = .out)
    (empty : state.opened = none) :
    state.advance rules punch =
      ⟨orphan punch :: state.spans, none, some (.out, punch.instant)⟩ := by
  simp [advance, fresh, leaving, empty]

theorem advance_close {span : Span} (fresh : state.repeats rules punch = false)
    (leaving : punch.direction = .out) (opened : state.opened = some span) :
    state.advance rules punch =
      ⟨close rules span punch :: state.spans, none, some (.out, punch.instant)⟩ := by
  simp [advance, fresh, leaving, opened]

theorem repeats_iff {direction : Direction} {instant : Int} (last : state.last = some (direction, instant)) :
    state.repeats rules punch = true ↔
      punch.direction = direction ∧ sub punch.instant instant ≤ rules.duplicateWindow := by
  simp [repeats, last]

@[simp] theorem arrival_startedAt : (arrival punch).startedAt = punch.instant := by
  simp [arrival]

@[simp] theorem orphan_startedAt : (orphan punch).startedAt = punch.instant := by
  simp [orphan]

@[simp] theorem close_startedAt (span : Span) : (close rules span punch).startedAt = span.startedAt := by
  unfold close
  dsimp only
  split <;> split <;> simp

@[simp] theorem close_endedAt (span : Span) : (close rules span punch).endedAt = some punch.instant := by
  unfold close
  dsimp only
  split <;> split <;> simp

@[simp] theorem close_inEventId (span : Span) : (close rules span punch).inEventId = span.inEventId := by
  unfold close
  dsimp only
  split <;> split <;> simp

@[simp] theorem close_outEventId (span : Span) :
    (close rules span punch).outEventId = some punch.eventId := by
  unfold close
  dsimp only
  split <;> split <;> simp

/-! ## What the loop keeps

The punch before decides whether a span is open.  A span that was flagged at all is
the open one or the newest, and it is not flagged only where that punch is the one
it was anchored by.
-/

inductive Coherent : Pairing → Prop where
  | start : Coherent start
  | inside {spans : List Span} {span : Span} {instant : Int} (arrived : span.inEventId.isSome = true)
      (flagged : span.startedAt = instant ∨ .duplicate ∈ span.anomalies) :
      Coherent ⟨spans, some span, some (.in, instant)⟩
  | outside {spans : List Span} {span : Span} {instant : Int} (left : span.outEventId.isSome = true)
      (marker : span.inEventId = none → span.endedAt = some span.startedAt)
      (flagged : span.endedAt = some instant ∨ .duplicate ∈ span.anomalies) :
      Coherent ⟨span :: spans, none, some (.out, instant)⟩

theorem Coherent.arrived {span : Span} (coherent : state.Coherent) (opened : state.opened = some span) :
    span.inEventId.isSome = true := by
  cases coherent with
  | start => cases opened
  | inside arrived flagged =>
      cases opened
      exact arrived
  | outside => cases opened

theorem mem_flag (span : Span) (anomaly : Anomaly) : anomaly ∈ (span.flag anomaly).anomalies := by
  simp only [Span.flag]
  split
  next member => exact member
  next => simp

theorem Coherent.advance (coherent : state.Coherent) : (state.advance rules punch).Coherent := by
  cases repeated : state.repeats rules punch with
  | true =>
      rw [advance_repeat repeated]
      cases coherent with
      | start => simp [repeats, Pairing.start] at repeated
      | inside arrived flagged =>
          rw [((repeats_iff rfl).mp repeated).1]
          exact .inside (by simpa using arrived) (.inr (mem_flag _ _))
      | outside left marker flagged =>
          rw [((repeats_iff rfl).mp repeated).1]
          exact .outside (by simpa using left) (by simpa using marker) (.inr (mem_flag _ _))
  | false =>
      cases direction : punch.direction with
      | «in» =>
          rw [advance_in repeated direction]
          exact .inside (by simp [arrival]) (.inl arrival_startedAt)
      | out =>
          cases opened : state.opened with
          | none =>
              rw [advance_orphan repeated direction opened]
              exact .outside (by simp [orphan]) (by simp [orphan]) (.inl (by simp [orphan]))
          | some span =>
              have arrived := coherent.arrived opened
              rw [advance_close repeated direction opened]
              refine .outside (by simp) (fun missing => ?_) (.inl (by simp))
              rw [close_inEventId] at missing
              rw [missing] at arrived
              cases arrived

theorem coherent_foldl (punches : List Punch) (coherent : state.Coherent) :
    (punches.foldl (advance rules) state).Coherent := by
  induction punches generalizing state with
  | nil => exact coherent
  | cons punch punches ih => exact ih coherent.advance

/-! ## Closed spans are short -/

def Bounded (rules : Rules) (spans : List Span) : Prop :=
  ∀ span ∈ spans, span.inEventId.isSome = true → span.outEventId.isSome = true →
    span.duration ≤ rules.maxPlausibleSpan

theorem flag_duration (span : Span) (anomaly : Anomaly) :
    (span.flag anomaly).duration = span.duration := by
  simp [Span.duration]

theorem bounded_flag {spans : List Span} {span : Span} {anomaly : Anomaly}
    (bounded : Bounded rules (span.flag anomaly :: spans)) : Bounded rules (span :: spans) := by
  obtain ⟨first, others⟩ := List.forall_mem_cons.mp bounded
  refine List.forall_mem_cons.mpr ⟨?_, others⟩
  simpa [flag_duration] using first

theorem bounded_abandon (bounded : Bounded rules state.abandon.spans) : Bounded rules state.spans := by
  obtain ⟨spans, opened, last⟩ := state
  cases opened with
  | none => exact bounded
  | some span => exact (List.forall_mem_cons.mp bounded).2

/-- A span that was appended stays, if perhaps with one more flag. -/
theorem bounded_advance (bounded : Bounded rules (state.advance rules punch).spans) :
    Bounded rules state.spans := by
  cases repeated : state.repeats rules punch with
  | true =>
      rw [advance_repeat repeated] at bounded
      obtain ⟨spans, opened, last⟩ := state
      cases opened with
      | some span => exact bounded
      | none =>
          cases spans with
          | nil => exact bounded
          | cons span spans => exact bounded_flag bounded
  | false =>
      cases direction : punch.direction with
      | «in» =>
          rw [advance_in repeated direction] at bounded
          exact bounded_abandon bounded
      | out =>
          cases opened : state.opened with
          | none =>
              rw [advance_orphan repeated direction opened] at bounded
              exact (List.forall_mem_cons.mp bounded).2
          | some span =>
              rw [advance_close repeated direction opened] at bounded
              exact (List.forall_mem_cons.mp bounded).2

theorem bounded_foldl {punches : List Punch}
    (bounded : Bounded rules (punches.foldl (advance rules) state).spans) :
    Bounded rules state.spans := by
  induction punches generalizing state with
  | nil => exact bounded
  | cons punch punches ih => exact bounded_advance (ih bounded)

/-! ## After the padding -/

section

variable (standard : rules.Standard)

/-- The spans that start before an instant, with the open one as it would be left. -/
def early (edge : Int) (state : Pairing) : List Span :=
  state.abandon.spans.filter (·.startedAt < edge)

theorem early_last {edge : Int} (last : Option (Direction × Int)) :
    early edge { state with last } = early edge state := by
  obtain ⟨spans, opened, before⟩ := state
  cases opened <;> rfl

theorem flag_of_mem {span : Span} {anomaly : Anomaly} (member : anomaly ∈ span.anomalies) :
    span.flag anomaly = span :=
  if_pos member

include standard in
theorem recent_of_repeats {direction : Direction} {instant : Int}
    (last : state.last = some (direction, instant)) (repeated : state.repeats rules punch = true) :
    punch.instant ≤ instant + 90 * second := by
  have close := ((repeats_iff last).mp repeated).2
  rw [standard.duplicateWindow] at close
  have far := @sub_gt_iff punch.instant instant (90 * second) (by decide) (by decide)
  omega

include standard in
theorem ended_le {span : Span} {ended : Int} (closed : span.endedAt = some ended)
    (short : span.duration ≤ rules.maxPlausibleSpan) : ended ≤ span.startedAt + 16 * hour := by
  rw [standard.maxPlausibleSpan, Span.duration, closed] at short
  have far := @sub_gt_iff ended span.startedAt (16 * hour) (by decide) (by decide)
  dsimp only at short
  omega

include standard in
/-- A punch this late flags only a span that begins late, or one that carries the flag. -/
theorem early_flagDuplicate {edge : Int} (coherent : state.Coherent) (bounded : Bounded rules state.spans)
    (repeated : state.repeats rules punch = true) (late : edge + 17 * hour ≤ punch.instant) :
    early edge state.flagDuplicate = early edge state := by
  cases coherent with
  | start => rfl
  | @inside spans span instant arrived flagged =>
      have recent := recent_of_repeats standard rfl repeated
      rcases flagged with fresh | marked
      · have after : ¬ span.startedAt < edge := by
          simp only [hour, minute, second, millisecond] at *
          omega
        simp [early, flagDuplicate, abandon, after]
      · simp only [flagDuplicate, flag_of_mem marked]
  | @outside spans span instant left marker flagged =>
      have recent := recent_of_repeats standard rfl repeated
      rcases flagged with fresh | marked
      · have near : instant ≤ span.startedAt + 16 * hour := by
          cases arrived : span.inEventId with
          | none =>
              have same : instant = span.startedAt := by
                rw [marker arrived] at fresh
                exact (Option.some.inj fresh).symm
              simp only [hour, minute, second, millisecond]
              omega
          | some id =>
              exact ended_le standard fresh (bounded span (by simp) (by simp [arrived]) left)
        have after : ¬ span.startedAt < edge := by
          simp only [hour, minute, second, millisecond] at *
          omega
        simp [early, flagDuplicate, abandon, after]
      · simp only [flagDuplicate, flag_of_mem marked]

include standard in
theorem early_advance {edge : Int} (coherent : state.Coherent)
    (bounded : Bounded rules (state.advance rules punch).spans)
    (late : edge + 17 * hour ≤ punch.instant) :
    early edge (state.advance rules punch) = early edge state := by
  have after : ¬ punch.instant < edge := by
    simp only [hour, minute, second, millisecond] at late
    omega
  cases repeated : state.repeats rules punch with
  | true =>
      have kept := early_flagDuplicate standard coherent (bounded_advance bounded) repeated late
      rw [advance_repeat repeated, early_last, kept]
  | false =>
      cases direction : punch.direction with
      | «in» =>
          rw [advance_in repeated direction]
          simp [early, abandon, after]
      | out =>
          cases opened : state.opened with
          | none =>
              rw [advance_orphan repeated direction opened]
              simp [early, abandon, opened, after]
          | some span =>
              rw [advance_close repeated direction opened] at bounded ⊢
              have arrived := coherent.arrived opened
              have near := ended_le standard (close_endedAt span)
                (bounded (close rules span punch) (by simp) (by simpa using arrived) (by simp))
              rw [close_startedAt] at near
              have begins : ¬ span.startedAt < edge := by
                simp only [hour, minute, second, millisecond] at *
                omega
              simp [early, abandon, opened, begins]

include standard in
/-- Nothing this late reaches back. -/
theorem early_foldl {edge : Int} {punches : List Punch} (coherent : state.Coherent)
    (bounded : Bounded rules (punches.foldl (advance rules) state).spans)
    (late : ∀ punch ∈ punches, edge + 17 * hour ≤ punch.instant) :
    early edge (punches.foldl (advance rules) state) = early edge state := by
  induction punches generalizing state with
  | nil => rfl
  | cons punch punches ih =>
      obtain ⟨first, others⟩ := List.forall_mem_cons.mp late
      rw [List.foldl_cons, ih coherent.advance bounded others,
        early_advance standard coherent (bounded_foldl bounded) first]

end

/-! ## Before the window

The runs agree but for spans that start before the edge.  They are level once the
open span is the same, and apart while both hold an old one.
-/

def Old (edge : Int) (spans : List Span) : Prop := ∀ span ∈ spans, span.startedAt < edge

theorem old_cons {edge : Int} {span : Span} {spans : List Span} :
    Old edge (span :: spans) ↔ span.startedAt < edge ∧ Old edge spans :=
  List.forall_mem_cons

inductive Aligned (edge : Int) : Pairing → Pairing → Prop where
  | level {spans first second : List Span} {opened : Option Span} {last : Option (Direction × Int)}
      (firstOld : Old edge first) (secondOld : Old edge second) :
      Aligned edge ⟨spans ++ first, opened, last⟩ ⟨spans ++ second, opened, last⟩
  | apart {first second : List Span} {left right : Span} {last : Option (Direction × Int)}
      (firstOld : Old edge (left :: first)) (secondOld : Old edge (right :: second)) :
      Aligned edge ⟨first, some left, last⟩ ⟨second, some right, last⟩

variable {edge : Int} {full part : Pairing}

theorem old_flag {span : Span} {spans : List Span} {anomaly : Anomaly} (old : Old edge (span :: spans)) :
    Old edge (span.flag anomaly :: spans) := by
  simpa [old_cons] using old

def flagNewest : List Span → List Span
  | [] => []
  | span :: spans => span.flag .duplicate :: spans

theorem flagDuplicate_none {spans : List Span} {last : Option (Direction × Int)} :
    flagDuplicate ⟨spans, none, last⟩ = ⟨flagNewest spans, none, last⟩ := by
  cases spans <;> rfl

theorem old_flagNewest {spans : List Span} (old : Old edge spans) : Old edge (flagNewest spans) := by
  cases spans with
  | nil => exact old
  | cons span spans => exact old_flag old

theorem Aligned.flagDuplicate (aligned : Aligned edge full part) :
    Aligned edge full.flagDuplicate part.flagDuplicate := by
  cases aligned with
  | @level spans first second opened last firstOld secondOld =>
      cases opened with
      | some span => exact .level firstOld secondOld
      | none =>
          rw [flagDuplicate_none, flagDuplicate_none]
          cases spans with
          | nil => exact @level edge [] _ _ none last (old_flagNewest firstOld) (old_flagNewest secondOld)
          | cons span spans => exact @level edge (_ :: spans) _ _ none last firstOld secondOld
  | apart firstOld secondOld => exact .apart (old_flag firstOld) (old_flag secondOld)

theorem Aligned.last (aligned : Aligned edge full part) (last : Option (Direction × Int)) :
    Aligned edge { full with last } { part with last } := by
  cases aligned with
  | level firstOld secondOld => exact .level firstOld secondOld
  | apart firstOld secondOld => exact .apart firstOld secondOld

/-- A span that both open, over what they leave behind. -/
theorem Aligned.abandon (aligned : Aligned edge full part) (opened : Option Span) :
    Aligned edge { full.abandon with opened } { part.abandon with opened } := by
  cases aligned with
  | @level spans first second before last firstOld secondOld =>
      cases before with
      | none => exact .level firstOld secondOld
      | some span => exact @level edge (_ :: spans) _ _ opened last firstOld secondOld
  | @apart first second left right last firstOld secondOld =>
      exact @level edge [] _ _ opened last (old_flag firstOld) (old_flag secondOld)

theorem Aligned.repeats (aligned : Aligned edge full part) :
    full.repeats rules punch = part.repeats rules punch := by
  cases aligned <;> rfl

/-- Runs that agree go on to agree. -/
theorem Aligned.advance (aligned : Aligned edge full part) :
    Aligned edge (full.advance rules punch) (part.advance rules punch) := by
  have same := @aligned.repeats rules punch
  cases repeated : full.repeats rules punch with
  | true =>
      rw [advance_repeat repeated, advance_repeat (same ▸ repeated)]
      exact aligned.flagDuplicate.last _
  | false =>
      have fresh := same ▸ repeated
      cases direction : punch.direction with
      | «in» =>
          rw [advance_in repeated direction, advance_in fresh direction]
          exact (aligned.abandon (some (arrival punch))).last (some (.in, punch.instant))
      | out =>
          cases aligned with
          | @level spans first second opened last firstOld secondOld =>
              cases opened with
              | none =>
                  rw [advance_orphan repeated direction rfl, advance_orphan fresh direction rfl]
                  exact @level edge (_ :: spans) _ _ none _ firstOld secondOld
              | some span =>
                  rw [advance_close repeated direction rfl, advance_close fresh direction rfl]
                  exact @level edge (_ :: spans) _ _ none _ firstOld secondOld
          | @apart first second left right last firstOld secondOld =>
              rw [advance_close repeated direction rfl, advance_close fresh direction rfl]
              refine @level edge [] _ _ none _ ?_ ?_
              · simpa [old_cons] using firstOld
              · simpa [old_cons] using secondOld

theorem aligned_foldl (punches : List Punch) (aligned : Aligned edge full part) :
    Aligned edge (punches.foldl (Pairing.advance rules) full)
      (punches.foldl (Pairing.advance rules) part) := by
  induction punches generalizing full part with
  | nil => exact aligned
  | cons punch punches ih => exact ih aligned.advance

/-- Behind the edge nothing tells the runs apart. -/
theorem Aligned.filter (aligned : Aligned edge full part) {kept : Span → Bool}
    (recent : ∀ span, kept span = true → edge ≤ span.startedAt) :
    full.abandon.spans.filter kept = part.abandon.spans.filter kept := by
  have dropped {spans : List Span} (old : Old edge spans) : spans.filter kept = [] := by
    refine List.filter_eq_nil_iff.mpr fun span member chosen => ?_
    exact absurd (recent span chosen) (not_le.mpr (old span member))
  have left := aligned.abandon none
  have lists {left right : Pairing} (aligned : Aligned edge left right) (shut : left.opened = none) :
      left.spans.filter kept = right.spans.filter kept := by
    cases aligned with
    | level firstOld secondOld =>
        simp only [List.filter_append, dropped firstOld, dropped secondOld]
    | apart => cases shut
  have same := lists left rfl
  exact same

section

variable (standard : rules.Standard)

include standard in
/-- The first punch that both see brings the run over all punches in line with a fresh one. -/
theorem aligned_first (coherent : full.Coherent)
    (before : full.Instants (· < edge)) (past : ∀ last ∈ full.last, last.2 < edge)
    (bounded : Bounded rules (full.advance rules punch).spans) :
    Aligned (edge + 16 * hour) (full.advance rules punch) (Pairing.start.advance rules punch) := by
  have fresh : Pairing.start.repeats rules punch = false := rfl
  have later : edge < edge + 16 * hour := by
    simp only [hour, minute, second, millisecond]
    omega
  have nothing : Old (edge + 16 * hour) [] := by simp [Old]
  have old : Old (edge + 16 * hour) full.spans := fun span member =>
    lt_trans (before span (List.mem_append_right _ member)).1 later
  cases repeated : full.repeats rules punch with
  | true =>
      rw [advance_repeat repeated]
      cases coherent with
      | start => cases repeated
      | @inside spans span instant arrived flagged =>
          have begins := (before span (by simp)).1
          have direction := ((repeats_iff rfl).mp repeated).1
          have recent := recent_of_repeats standard rfl repeated
          have lately : instant < edge := past _ rfl
          rw [advance_in fresh direction, direction]
          refine .apart (old_flag (old_cons.mpr ⟨lt_trans begins later, old⟩)) (old_cons.mpr ⟨?_, nothing⟩)
          rw [arrival_startedAt]
          simp only [hour, minute, second, millisecond] at *
          omega
      | @outside spans span instant left marker flagged =>
          have direction := ((repeats_iff rfl).mp repeated).1
          have recent := recent_of_repeats standard rfl repeated
          have lately : instant < edge := past _ rfl
          rw [advance_orphan fresh direction rfl, direction]
          refine @Aligned.level _ [] _ _ none _ (old_flag old) (old_cons.mpr ⟨?_, nothing⟩)
          rw [orphan_startedAt]
          simp only [hour, minute, second, millisecond] at *
          omega
  | false =>
      cases direction : punch.direction with
      | «in» =>
          rw [advance_in repeated direction, advance_in fresh direction]
          have abandoned : Old (edge + 16 * hour) full.abandon.spans := fun span member =>
            lt_trans (before.abandon span (List.mem_append_right _ member)).1 later
          exact @Aligned.level _ [] _ _ (some (arrival punch)) (some (.in, punch.instant)) abandoned nothing
      | out =>
          cases opened : full.opened with
          | none =>
              rw [advance_orphan repeated direction opened, advance_orphan fresh direction rfl]
              exact @Aligned.level _ [orphan punch] _ _ none _ old nothing
          | some span =>
              rw [advance_close repeated direction opened] at bounded ⊢
              rw [advance_orphan fresh direction rfl]
              have begins := (before span (by simp [opened])).1
              have arrived := coherent.arrived opened
              have near := ended_le standard (close_endedAt span)
                (bounded (close rules span punch) (by simp) (by simpa using arrived) (by simp))
              rw [close_startedAt] at near
              refine @Aligned.level _ [] _ _ none _ (old_cons.mpr ⟨?_, old⟩) (old_cons.mpr ⟨?_, nothing⟩)
              · rw [close_startedAt]
                exact lt_trans begins later
              · rw [orphan_startedAt]
                omega

end

/-! ## The punches in order -/

theorem instants_foldl {property : Int → Prop} {punches : List Punch}
    (before : state.Instants property) (told : ∀ punch ∈ punches, property punch.instant) :
    (punches.foldl (Pairing.advance rules) state).Instants property := by
  induction punches generalizing state with
  | nil => exact before
  | cons punch punches ih =>
      obtain ⟨first, others⟩ := List.forall_mem_cons.mp told
      exact ih (before.advance first) others

theorem last_foldl {property : Int → Prop} {punches : List Punch}
    (before : ∀ last ∈ state.last, property last.2) (told : ∀ punch ∈ punches, property punch.instant) :
    ∀ last ∈ (punches.foldl (Pairing.advance rules) state).last, property last.2 := by
  induction punches generalizing state with
  | nil => exact before
  | cons punch punches ih =>
      obtain ⟨first, others⟩ := List.forall_mem_cons.mp told
      refine ih (fun last member => ?_) others
      cases member
      exact first

end Pairing

section

variable {rules : Rules} (standard : rules.Standard) {before padded after : List Punch} {cut late : Int}

include standard in
/-- What is kept of a run over three stretches of punches is told by the middle one. -/
theorem foldl_padded (past : ∀ punch ∈ before, punch.instant < cut)
    (future : ∀ punch ∈ after, late + 17 * hour ≤ punch.instant)
    (bounded : Pairing.Bounded rules
      ((before ++ padded ++ after).foldl (Pairing.advance rules) .start).spans)
    {kept : Span → Bool}
    (inside : ∀ span, kept span = true → cut + 16 * hour ≤ span.startedAt ∧ span.startedAt < late) :
    ((before ++ padded ++ after).foldl (Pairing.advance rules) .start).abandon.spans.filter kept =
      (padded.foldl (Pairing.advance rules) .start).abandon.spans.filter kept := by
  rw [List.foldl_append, List.foldl_append] at bounded ⊢
  generalize earlier : before.foldl (Pairing.advance rules) .start = full at bounded ⊢
  have coherent : full.Coherent := earlier ▸ Pairing.coherent_foldl before .start
  have old : full.Instants (· < cut) := earlier ▸ Pairing.instants_foldl
    (by simp [Pairing.Instants, Pairing.start]) past
  have last : ∀ last ∈ full.last, last.2 < cut := earlier ▸
    @Pairing.last_foldl rules .start (· < cut) before (by simp [Pairing.start]) past
  -- the punches after the padding
  have settled := Pairing.early_foldl standard (Pairing.coherent_foldl padded coherent) bounded future
  have trimmed (state : Pairing) : state.abandon.spans.filter kept =
      (Pairing.early late state).filter kept := by
    rw [Pairing.early, List.filter_filter]
    refine List.filter_congr fun span member => ?_
    cases chosen : kept span with
    | false => rfl
    | true => simp [(inside span chosen).2]
  rw [trimmed, settled, ← trimmed]
  -- the punches before it
  cases padded with
  | nil =>
      refine (List.filter_eq_nil_iff.mpr fun span member chosen => ?_).trans
        (List.filter_eq_nil_iff.mpr fun span member => ?_).symm
      · have begins := (old.abandon span (List.mem_append_right _ member)).1
        have recent := (inside span chosen).1
        simp only [hour, minute, second, millisecond] at recent
        omega
      · simp [Pairing.start, Pairing.abandon] at member
  | cons punch padded =>
      have first := Pairing.aligned_first standard coherent old last
        (Pairing.bounded_foldl (Pairing.bounded_foldl bounded))
      exact (Pairing.aligned_foldl padded first).filter fun span chosen => (inside span chosen).1

end

/-! ## Sorting -/

instance : IsTrans Punch precedes where
  trans first second third := by
    simp only [precedes]
    omega

instance : Std.Total precedes where
  total first second := by
    simp only [precedes]
    omega

/-- A list in order, cut where a property ends. -/
theorem filter_append_filter {α : Type} {order : α → α → Prop} {early : α → Bool} {items : List α}
    (sorted : items.Pairwise order)
    (closed : ∀ first second, order first second → early second = true → early first = true) :
    items.filter early ++ items.filter (!early ·) = items := by
  induction items with
  | nil => rfl
  | cons item items ih =>
      obtain ⟨first, others⟩ := List.pairwise_cons.mp sorted
      cases start : early item with
      | true => simp [start, ih others]
      | false =>
          have none : ∀ other ∈ items, early other = false := fun other member => by
            cases held : early other with
            | false => rfl
            | true =>
                rw [closed item other (first other member) held] at start
                cases start
          have dropped : items.filter early = [] := List.filter_eq_nil_iff.mpr (by simpa using none)
          have all : items.filter (!early ·) = items := List.filter_eq_self.mpr (by simpa using none)
          simp [start, dropped, all]

/-- Distinct events have one order. -/
theorem sorted_unique {first second : List Punch} (distinct : (first.map Punch.eventId).Nodup)
    (left : first.Pairwise precedes) (right : second.Pairwise precedes) (same : first.Perm second) :
    first = second := by
  refine same.eq_of_pairwise (fun one other here there forth back => ?_) left right
  apply List.inj_on_of_nodup_map distinct here (same.mem_iff.mpr there)
  simp only [precedes] at forth back
  omega

theorem insertionSort_filter {punches : List Punch} (distinct : (punches.map Punch.eventId).Nodup)
    (kept : Punch → Bool) :
    (punches.filter kept).insertionSort precedes = (punches.insertionSort precedes).filter kept := by
  have sorted := List.perm_insertionSort precedes (punches.filter kept)
  refine sorted_unique ?_ (List.pairwise_insertionSort precedes _)
    ((List.pairwise_insertionSort precedes punches).sublist List.filter_sublist)
    (sorted.trans ((List.perm_insertionSort precedes punches).filter kept).symm)
  rw [(sorted.map Punch.eventId).nodup_iff]
  exact distinct.sublist (List.filter_sublist.map _)

/-- The order in which events are listed does not matter. -/
theorem pair_perm {first second : List Punch} (rules : Rules)
    (distinct : (first.map Punch.eventId).Nodup) (same : first.Perm second) :
    pair first rules = pair second rules := by
  have left := List.perm_insertionSort precedes first
  have sorted : first.insertionSort precedes = second.insertionSort precedes := by
    refine sorted_unique ?_ (List.pairwise_insertionSort precedes first)
      (List.pairwise_insertionSort precedes second)
      (left.trans (same.trans (List.perm_insertionSort precedes second).symm))
    rw [(left.map Punch.eventId).nodup_iff]
    exact distinct
  rw [pair, pair, sorted]

/-! ## Recomputing a window -/

def Punch.within (fetchFrom fetchTo : Int) (punch : Punch) : Bool :=
  decide (fetchFrom ≤ punch.instant ∧ punch.instant < fetchTo)

/-- The punches a recompute looks at. -/
def padding (lower upper : Int) : Punch → Bool :=
  Punch.within (lower - lookbackDays * day) (upper + (lookbackDays + 1) * day)

def Span.requested (rules : Rules) (lower upper : Int) (span : Span) : Bool :=
  (Window.mk (businessDate lower rules) (businessDate upper rules)).requested
    (businessDate span.startedAt rules)

/-- Instants a day and a third apart fall on different dates. -/
def Spaced (location : Location) : Prop :=
  ∀ earlier later, earlier + 32 * hour ≤ later →
    (location.midnight (location.timeIn earlier).date).instant <
      (location.midnight (location.timeIn later).date).instant

theorem Spaced.businessDate_lt {rules : Rules} (spaced : Spaced rules.location) {earlier later : Int}
    (apart : earlier + 32 * hour ≤ later) :
    (businessDate earlier rules).instant < (businessDate later rules).instant :=
  spaced _ _ (by omega)

theorem sorted_within (punches : List Punch) (fetchFrom fetchTo : Int) :
    ∃ before after, punches.insertionSort precedes =
        before ++ (punches.insertionSort precedes).filter (Punch.within fetchFrom fetchTo) ++ after ∧
      (∀ punch ∈ before, punch.instant < fetchFrom) ∧ ∀ punch ∈ after, fetchTo ≤ punch.instant := by
  have sorted := List.pairwise_insertionSort precedes punches
  generalize punches.insertionSort precedes = items at sorted ⊢
  let early (limit : Int) (punch : Punch) : Bool := decide (punch.instant < limit)
  have closed (limit : Int) (first second : Punch) (order : precedes first second)
      (held : early limit second = true) : early limit first = true := by
    simp only [early, decide_eq_true_eq] at held ⊢
    simp only [precedes] at order
    omega
  have near := filter_append_filter sorted (closed fetchFrom)
  have later : (items.filter (!early fetchFrom ·)).Pairwise precedes :=
    sorted.sublist List.filter_sublist
  have far := filter_append_filter later (closed fetchTo)
  have middle : (items.filter (!early fetchFrom ·)).filter (early fetchTo) =
      items.filter (Punch.within fetchFrom fetchTo) := by
    rw [List.filter_filter]
    refine List.filter_congr fun punch member => ?_
    have same : (early fetchTo punch && !early fetchFrom punch) = true ↔
        punch.within fetchFrom fetchTo = true := by
      rw [Punch.within, decide_eq_true_iff]
      simp only [early, Bool.and_eq_true, Bool.not_eq_true', decide_eq_false_iff_not, decide_eq_true_eq]
      omega
    exact Bool.eq_iff_iff.mpr same
  rw [middle] at far
  refine ⟨items.filter (early fetchFrom),
    (items.filter (!early fetchFrom ·)).filter (!early fetchTo ·), ?_, ?_, ?_⟩
  · rw [List.append_assoc, far, near]
  · intro punch member
    simpa [early] using (List.mem_filter.mp member).2
  · intro punch member
    simpa [early] using (List.mem_filter.mp member).2

/-- Punches further away than this change no span of the window. -/
theorem pair_within {rules : Rules} {punches : List Punch} {lower upper fetchFrom fetchTo : Int}
    (standard : rules.Standard) (spaced : Spaced rules.location)
    (near : fetchFrom + 2 * day ≤ lower) (far : upper + 49 * hour ≤ fetchTo)
    (distinct : (punches.map Punch.eventId).Nodup)
    (bounded : Pairing.Bounded rules (pair punches rules)) :
    (pair (punches.filter (Punch.within fetchFrom fetchTo)) rules).filter
        (Span.requested rules lower upper) =
      (pair punches rules).filter (Span.requested rules lower upper) := by
  obtain ⟨before, after, cut, past, future⟩ := sorted_within punches fetchFrom fetchTo
  have inside : ∀ span, Span.requested rules lower upper span = true →
      fetchFrom + 16 * hour ≤ span.startedAt ∧ span.startedAt < upper + 32 * hour := by
    intro span requested
    have early := @spaced.businessDate_lt rules span.startedAt lower
    have late := @spaced.businessDate_lt rules upper span.startedAt
    simp only [Span.requested, Window.requested, decide_eq_true_eq] at requested
    simp only [day] at near
    omega
  have short : Pairing.Bounded rules
      ((punches.insertionSort precedes).foldl (Pairing.advance rules) .start).spans :=
    Pairing.bounded_abandon fun span member => bounded span (List.mem_reverse.mpr member)
  have settled : ∀ punch ∈ after, upper + 32 * hour + 17 * hour ≤ punch.instant := by
    intro punch member
    have late := future punch member
    omega
  have same := foldl_padded standard past settled (cut ▸ short) inside
  rw [← cut] at same
  rw [pair, pair, List.filter_reverse, List.filter_reverse, same, insertionSort_filter distinct]

/-! A zone without transitions. -/

theorem spaced_fixed (offset : Int) : Spaced (.fixed offset) := by
  intro earlier later apart
  rw [Location.midnight_fixed, Location.midnight_fixed]
  simp only [Location.timeIn, Location.fixed, Time.date]
  simp only [day, hour, minute, second, millisecond] at *
  omega

/-- In a zone of fixed offset, recomputing a window gives the spans that recomputing
everything gives for its dates. -/
theorem pair_padding_fixed (punches : List Punch) (offset boundary lower upper : Int)
    (distinct : (punches.map Punch.eventId).Nodup)
    (bounded : ∀ span ∈ pair punches { defaultRules (.fixed offset) with dayBoundary := boundary },
      span.inEventId.isSome = true → span.outEventId.isSome = true →
        span.duration ≤ (defaultRules (.fixed offset)).maxPlausibleSpan) :
    let rules : Rules := { defaultRules (.fixed offset) with dayBoundary := boundary }
    (pair (punches.filter (padding lower upper)) rules).filter (Span.requested rules lower upper) =
      (pair punches rules).filter (Span.requested rules lower upper) := by
  have near : lower - lookbackDays * day + 2 * day ≤ lower := by
    simp only [lookbackDays]
    omega
  have far : upper + 49 * hour ≤ upper + (lookbackDays + 1) * day := by
    simp only [lookbackDays, day, hour, minute, second, millisecond]
    omega
  exact pair_within ⟨rfl, rfl⟩ (spaced_fixed offset) near far distinct bounded

/-- A night shift that began before the window, a second tap on the way out, and an
arrival that the padding leaves out. -/
def nightShift : List Punch :=
  [⟨1, -60 * second, .in, .high⟩, ⟨2, 46 * hour, .in, .high⟩, ⟨3, 54 * hour, .out, .low⟩,
    ⟨4, 54 * hour + 60 * second, .out, .high⟩, ⟨5, 140 * hour, .out, .high⟩]

theorem pair_padding_fixed_nightShift :
    (pair (nightShift.filter (padding (2 * day) (2 * day)))
        { defaultRules (.fixed (3 * hour)) with dayBoundary := 0 }).filter
        (Span.requested { defaultRules (.fixed (3 * hour)) with dayBoundary := 0 } (2 * day) (2 * day)) =
      (pair nightShift { defaultRules (.fixed (3 * hour)) with dayBoundary := 0 }).filter
        (Span.requested { defaultRules (.fixed (3 * hour)) with dayBoundary := 0 } (2 * day) (2 * day)) :=
  pair_padding_fixed nightShift (3 * hour) 0 (2 * day) (2 * day) (by decide) (by decide +kernel)

end Presence.Attendance
