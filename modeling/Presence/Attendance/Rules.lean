import Mathlib.Data.List.Count
import Mathlib.Data.List.Nodup
import Mathlib.Data.List.Sort
import Presence.Data.Keyed
import Presence.Gateway.Schema

namespace Presence.Attendance

open Presence.Data Presence.Go Presence.Gateway

/-! # Attendance rules

`rules.go`: punches become spans, spans fall into business days, days are summed
up.  An instant is held without the location it was read in, since only business
dates are ever printed.
-/

inductive Direction where
  | in | out
deriving DecidableEq, Repr

inductive Anomaly where
  | missingOut | missingIn | overnight | duplicate | lowConfidence | implausibleSpan
deriving DecidableEq, Repr

def Anomaly.text : Anomaly → String
  | .missingOut => "missing_out"
  | .missingIn => "missing_in"
  | .overnight => "overnight"
  | .duplicate => "duplicate_suppressed"
  | .lowConfidence => "low_time_conf"
  | .implausibleSpan => "implausible_span"

structure Punch where
  eventId : Int
  instant : Int
  direction : Direction
  confidence : TimeConfidence
deriving DecidableEq, Repr

/-- One continuous period of presence, anchored by the punches it came from. -/
structure Span where
  inEventId : Option Int
  outEventId : Option Int
  startedAt : Int
  endedAt : Option Int
  anomalies : List Anomaly
  anchored : (inEventId <|> outEventId).isSome
deriving DecidableEq, Repr

namespace Span

/-- Zero for an open span. -/
def duration (span : Span) : Int :=
  match span.endedAt with
  | none => 0
  | some ended => sub ended span.startedAt

def isOpen (span : Span) : Bool := span.endedAt.isNone

def flag (span : Span) (anomaly : Anomaly) : Span :=
  if anomaly ∈ span.anomalies then span
  else { span with anomalies := span.anomalies ++ [anomaly] }

def lowConf (span : Span) (punch : Punch) : Span :=
  if punch.confidence = .low then span.flag .lowConfidence else span

/-- The punches that anchor the span. -/
def ids (span : Span) : List Int := span.inEventId.toList ++ span.outEventId.toList

@[simp] theorem flag_inEventId (span : Span) (anomaly : Anomaly) :
    (span.flag anomaly).inEventId = span.inEventId := by
  simp only [flag]
  split <;> rfl

@[simp] theorem flag_outEventId (span : Span) (anomaly : Anomaly) :
    (span.flag anomaly).outEventId = span.outEventId := by
  simp only [flag]
  split <;> rfl

@[simp] theorem lowConf_inEventId (span : Span) (punch : Punch) :
    (span.lowConf punch).inEventId = span.inEventId := by
  simp only [lowConf]
  split <;> simp

@[simp] theorem lowConf_outEventId (span : Span) (punch : Punch) :
    (span.lowConf punch).outEventId = span.outEventId := by
  simp only [lowConf]
  split <;> simp

@[simp] theorem flag_startedAt (span : Span) (anomaly : Anomaly) :
    (span.flag anomaly).startedAt = span.startedAt := by
  simp only [flag]
  split <;> rfl

@[simp] theorem flag_endedAt (span : Span) (anomaly : Anomaly) :
    (span.flag anomaly).endedAt = span.endedAt := by
  simp only [flag]
  split <;> rfl

@[simp] theorem lowConf_startedAt (span : Span) (punch : Punch) :
    (span.lowConf punch).startedAt = span.startedAt := by
  simp only [lowConf]
  split <;> simp

@[simp] theorem lowConf_endedAt (span : Span) (punch : Punch) :
    (span.lowConf punch).endedAt = span.endedAt := by
  simp only [lowConf]
  split <;> simp

@[simp] theorem flag_ids (span : Span) (anomaly : Anomaly) :
    (span.flag anomaly).ids = span.ids := by
  simp [ids]

@[simp] theorem lowConf_ids (span : Span) (punch : Punch) :
    (span.lowConf punch).ids = span.ids := by
  simp [ids]

end Span

structure Rules where
  location : Location
  dayBoundary : Int
  duplicateWindow : Int
  maxPlausibleSpan : Int

def defaultRules (location : Location) : Rules where
  location
  dayBoundary := 4 * hour
  duplicateWindow := 90 * second
  maxPlausibleSpan := 16 * hour

/-- The day an instant is reported against, as that day's local midnight. -/
def businessDate (instant : Int) (rules : Rules) : Time :=
  let shifted := rules.location.timeIn (instant - rules.dayBoundary)
  rules.location.midnight shifted.date

/-! ## Pairing -/

def precedes (first second : Punch) : Prop :=
  first.instant < second.instant ∨
    first.instant = second.instant ∧ first.eventId ≤ second.eventId

instance (first second : Punch) : Decidable (precedes first second) :=
  inferInstanceAs (Decidable (_ ∨ _))

/-- The variables of the loop of `Pair`: the spans appended so far, newest first,
the open one, and the direction and instant of the punch before. -/
structure Pairing where
  spans : List Span
  opened : Option Span
  last : Option (Direction × Int)
deriving DecidableEq, Repr

namespace Pairing

def start : Pairing := ⟨[], none, none⟩

/-- The same direction as the punch before, within the window. -/
def repeats (rules : Rules) (state : Pairing) (punch : Punch) : Bool :=
  match state.last with
  | none => false
  | some (direction, instant) =>
      decide (punch.direction = direction ∧ sub punch.instant instant ≤ rules.duplicateWindow)

def flagDuplicate (state : Pairing) : Pairing :=
  match state.opened, state.spans with
  | some span, _ => { state with opened := some (span.flag .duplicate) }
  | none, span :: rest => { state with spans := span.flag .duplicate :: rest }
  | none, [] => state

/-- A span still open when the next arrival, or the end of the list, comes. -/
def abandon (state : Pairing) : Pairing :=
  match state.opened with
  | none => state
  | some span => { state with spans := span.flag .missingOut :: state.spans, opened := none }

def arrival (punch : Punch) : Span :=
  Span.lowConf ⟨some punch.eventId, none, punch.instant, none, [], rfl⟩ punch

/-- A departure without an arrival, kept as a marker of no length. -/
def orphan (punch : Punch) : Span :=
  ((⟨none, some punch.eventId, punch.instant, some punch.instant, [], rfl⟩ : Span).flag
    .missingIn).lowConf punch

def close (rules : Rules) (span : Span) (punch : Punch) : Span :=
  let ended : Span :=
    { span with
      outEventId := some punch.eventId
      endedAt := some punch.instant
      anchored := by cases span.inEventId <;> rfl }
  let ended := ended.lowConf punch
  let ended := if ended.duration > rules.maxPlausibleSpan then ended.flag .implausibleSpan else ended
  if (businessDate ended.startedAt rules).instant ≠ (businessDate punch.instant rules).instant then
    ended.flag .overnight
  else ended

def advance (rules : Rules) (state : Pairing) (punch : Punch) : Pairing :=
  let next :=
    if state.repeats rules punch then state.flagDuplicate
    else
      match punch.direction, state.opened with
      | .in, _ => { state.abandon with opened := some (arrival punch) }
      | .out, none => { state with spans := orphan punch :: state.spans }
      | .out, some span =>
          { state with spans := close rules span punch :: state.spans, opened := none }
  { next with last := some (punch.direction, punch.instant) }

def ids (state : Pairing) : List Int :=
  (state.opened.toList ++ state.spans).flatMap Span.ids

end Pairing

def pair (punches : List Punch) (rules : Rules) : List Span :=
  ((punches.insertionSort precedes).foldl (Pairing.advance rules) .start).abandon.spans.reverse

/-! No punch anchors two spans: a step adds at most the id of its own punch. -/

namespace Pairing

variable {rules : Rules} {state : Pairing} {punch : Punch}

theorem ids_flagDuplicate : state.flagDuplicate.ids = state.ids := by
  obtain ⟨spans, opened, last⟩ := state
  cases opened with
  | some span => simp [flagDuplicate, ids]
  | none => cases spans <;> simp [flagDuplicate, ids]

theorem ids_abandon : state.abandon.ids = state.ids := by
  obtain ⟨spans, opened, last⟩ := state
  cases opened <;> simp [abandon, ids]

@[simp] theorem abandon_opened : state.abandon.opened = none := by
  obtain ⟨spans, opened, last⟩ := state
  cases opened <;> rfl

theorem arrival_ids : (arrival punch).ids = [punch.eventId] := by
  simp [arrival, Span.ids]

theorem orphan_ids : (orphan punch).ids = [punch.eventId] := by
  simp [orphan, Span.ids]

theorem close_ids (span : Span) :
    (close rules span punch).ids = span.inEventId.toList ++ [punch.eventId] := by
  unfold close
  dsimp only
  split <;> split <;> simp [Span.ids]

theorem count_ids_advance (rules : Rules) (state : Pairing) (punch : Punch) (id : Int) :
    (state.advance rules punch).ids.count id ≤ (punch.eventId :: state.ids).count id := by
  unfold advance
  dsimp only
  split
  next =>
    change state.flagDuplicate.ids.count id ≤ _
    rw [ids_flagDuplicate]
    exact List.count_le_count_cons
  next =>
    split
    next =>
      have kept : state.abandon.spans.flatMap Span.ids = state.ids := by
        rw [← ids_abandon]
        simp [ids]
      simp [ids, arrival_ids, kept, List.count_cons]
    next _ empty =>
      simp [ids, orphan_ids, empty, List.count_cons]
    next span _ opened =>
      have held : span.ids = span.inEventId.toList ++ span.outEventId.toList := rfl
      simp only [ids, opened, close_ids, held, Option.toList, List.nil_append, List.cons_append,
        List.flatMap_cons, List.count_append, List.count_cons, List.count_nil]
      omega

theorem count_ids_foldl (rules : Rules) (state : Pairing) (punches : List Punch) (id : Int) :
    (punches.foldl (advance rules) state).ids.count id ≤
      (punches.map Punch.eventId).count id + state.ids.count id := by
  induction punches generalizing state with
  | nil => simp
  | cons first rest ih =>
      have stepped := count_ids_advance rules state first id
      have later := ih (state.advance rules first)
      simp only [List.foldl_cons, List.map_cons, List.count_cons] at *
      omega

end Pairing

theorem count_ids_pair (punches : List Punch) (rules : Rules) (id : Int) :
    ((pair punches rules).flatMap Span.ids).count id ≤ (punches.map Punch.eventId).count id := by
  have paired := Pairing.count_ids_foldl rules .start (punches.insertionSort precedes) id
  have sorted := ((List.perm_insertionSort precedes punches).map Punch.eventId).count_eq id
  rw [sorted] at paired
  refine le_trans (le_of_eq ?_) paired
  rw [← Pairing.ids_abandon, pair, ((List.reverse_perm _).flatMap_right Span.ids).count_eq]
  simp [Pairing.ids, Pairing.start]

/-! Every instant a span tells is that of a punch, so what holds of these holds of it. -/

def Span.Instants (property : Int → Prop) (span : Span) : Prop :=
  property span.startedAt ∧ ∀ ended ∈ span.endedAt, property ended

namespace Pairing

variable {rules : Rules} {state : Pairing} {punch : Punch} {property : Int → Prop}

def Instants (property : Int → Prop) (state : Pairing) : Prop :=
  ∀ span ∈ state.opened.toList ++ state.spans, span.Instants property

theorem Instants.flagDuplicate (told : state.Instants property) :
    state.flagDuplicate.Instants property := by
  obtain ⟨spans, opened, last⟩ := state
  cases opened with
  | some span => simpa [Instants, Pairing.flagDuplicate, Span.Instants] using told
  | none =>
      cases spans with
      | nil => exact told
      | cons span rest => simpa [Instants, Pairing.flagDuplicate, Span.Instants] using told

theorem Instants.abandon (told : state.Instants property) : state.abandon.Instants property := by
  obtain ⟨spans, opened, last⟩ := state
  cases opened with
  | some span => simpa [Instants, Pairing.abandon, Span.Instants] using told
  | none => exact told

theorem arrival_instants (told : property punch.instant) : (arrival punch).Instants property := by
  simpa [arrival, Span.Instants] using told

theorem orphan_instants (told : property punch.instant) : (orphan punch).Instants property := by
  simpa [orphan, Span.Instants] using told

theorem close_instants {span : Span} (started : span.Instants property)
    (told : property punch.instant) : (close rules span punch).Instants property := by
  have both : property span.startedAt ∧ property punch.instant := ⟨started.1, told⟩
  unfold close
  dsimp only
  split <;> split <;> simpa [Span.Instants] using both

theorem Instants.advance (before : state.Instants property) (told : property punch.instant) :
    (state.advance rules punch).Instants property := by
  unfold Pairing.advance
  dsimp only
  split
  next => exact before.flagDuplicate
  next =>
    split
    next =>
      have kept : ∀ span ∈ state.abandon.spans, span.Instants property :=
        fun span member => before.abandon span (List.mem_append_right _ member)
      exact List.forall_mem_cons.mpr ⟨arrival_instants told, kept⟩
    next _ empty =>
      intro span member
      simp only [empty, Option.toList_none, List.nil_append, List.mem_cons] at member
      rcases member with rfl | old
      · exact orphan_instants told
      · exact before span (List.mem_append_right _ old)
    next span _ opened =>
      have held : span.Instants property := before span (by simp [opened])
      refine List.forall_mem_cons.mpr ⟨close_instants held told, fun span member => ?_⟩
      exact before span (List.mem_append_right _ member)

end Pairing

theorem pair_instants {property : Int → Prop} {punches : List Punch} (rules : Rules)
    (told : ∀ punch ∈ punches, property punch.instant) :
    ∀ span ∈ pair punches rules, span.Instants property := by
  have folded : ((punches.insertionSort precedes).foldl (Pairing.advance rules)
      .start).Instants property := by
    apply List.foldlRecOn (motive := Pairing.Instants property)
    · simp [Pairing.Instants, Pairing.start]
    · intro state before punch member
      exact before.advance (told punch ((List.mem_insertionSort _).mp member))
  intro span member
  exact folded.abandon span (List.mem_append_right _ (List.mem_reverse.mp member))

/-! ## Days -/

structure Schedule where
  /-- The keys of the map `Weekdays`; Sunday is 0. -/
  weekdays : List Int
  expectedIn : Int
  expectedOut : Int
  graceMinutes : Int
deriving DecidableEq, Repr

/-- The first of January 1970 was a Thursday. -/
def weekday (date : Time) : Int := (date.date + 4) % 7

def Schedule.appliesOn (schedule : Schedule) (date : Time) : Bool :=
  schedule.weekdays.isEmpty || decide (weekday date ∈ schedule.weekdays)

structure Day where
  businessDate : Time
  firstInAt : Option Int
  lastOutAt : Option Int
  total : Int
  spanCount : Nat
  isPresent : Bool
  isLate : Bool
  needsReview : Bool
deriving DecidableEq, Repr

def earliest (first : Option Int) (instant : Int) : Option Int :=
  match first with
  | none => some instant
  | some known => if instant < known then some instant else some known

def latest (last : Option Int) (instant : Int) : Option Int :=
  match last with
  | none => some instant
  | some known => if instant > known then some instant else some known

/-- One round of the loop of `Rollup`.  The start of an orphan departure is an
exit time and no arrival. -/
def Day.addSpan (day : Day) (span : Span) : Day :=
  let isOrphanOut := span.inEventId.isNone && span.outEventId.isSome
  { day with
    isPresent := day.isPresent || !isOrphanOut
    firstInAt := if isOrphanOut then day.firstInAt else earliest day.firstInAt span.startedAt
    lastOutAt :=
      match span.endedAt with
      | none => day.lastOutAt
      | some ended => latest day.lastOutAt ended
    total := wrap64 (day.total + span.duration)
    needsReview := day.needsReview || !span.anomalies.isEmpty || span.isOpen }

/-- The local time of day, in whole seconds. -/
def sinceMidnight (instant : Int) (rules : Rules) : Int :=
  let ofDay := (instant + rules.location.offset instant) % Go.day
  ofDay - ofDay % second

def rollup (date : Time) (spans : List Span) (schedule : Option Schedule) (rules : Rules) : Day :=
  let day := spans.foldl Day.addSpan ⟨date, none, none, 0, spans.length, false, false, false⟩
  match schedule, day.firstInAt with
  | some schedule, some firstInAt =>
      if schedule.appliesOn date then
        let grace := wrap64 (schedule.graceMinutes * minute)
        { day with
          isLate := decide (wrap64 (schedule.expectedIn + grace) < sinceMidnight firstInAt rules) }
      else day
  | _, _ => day

/-- Lateness is decided last and changes nothing else. -/
theorem rollup_eq (date : Time) (spans : List Span) (schedule : Option Schedule) (rules : Rules) :
    ∃ isLate, rollup date spans schedule rules =
      { spans.foldl Day.addSpan ⟨date, none, none, 0, spans.length, false, false, false⟩ with
        isLate } := by
  unfold rollup
  dsimp only
  split
  next =>
    split
    · exact ⟨_, rfl⟩
    · exact ⟨_, rfl⟩
  next => exact ⟨_, rfl⟩

def Day.Instants (property : Int → Prop) (day : Day) : Prop :=
  (∀ first ∈ day.firstInAt, property first) ∧ ∀ last ∈ day.lastOutAt, property last

theorem Day.Instants.addSpan {property : Int → Prop} {day : Day} {span : Span}
    (before : day.Instants property) (told : span.Instants property) :
    (day.addSpan span).Instants property := by
  have first : ∀ first ∈ earliest day.firstInAt span.startedAt, property first := by
    simp only [earliest]
    split
    next => simpa using told.1
    next known held =>
      split
      next => simpa using told.1
      next => simpa [held] using before.1
  have last : ∀ ended ∈ span.endedAt, ∀ last ∈ latest day.lastOutAt ended, property last := by
    intro ended member
    simp only [latest]
    split
    next => simpa using told.2 ended member
    next known held =>
      split
      next => simpa using told.2 ended member
      next => simpa [held] using before.2
  simp only [Day.addSpan]
  constructor
  · dsimp only
    split
    next => exact before.1
    next => exact first
  · dsimp only
    cases ended : span.endedAt with
    | none => exact before.2
    | some instant => exact last instant ended

theorem foldl_addSpan_businessDate (spans : List Span) (day : Day) :
    (spans.foldl Day.addSpan day).businessDate = day.businessDate := by
  induction spans generalizing day with
  | nil => rfl
  | cons first rest ih => exact ih (day.addSpan first)

theorem rollup_businessDate (date : Time) (spans : List Span) (schedule : Option Schedule)
    (rules : Rules) : (rollup date spans schedule rules).businessDate = date := by
  obtain ⟨isLate, same⟩ := rollup_eq date spans schedule rules
  rw [same]
  exact foldl_addSpan_businessDate spans _

theorem rollup_instants {property : Int → Prop} {spans : List Span} (date : Time)
    (schedule : Option Schedule) (rules : Rules)
    (told : ∀ span ∈ spans, span.Instants property) :
    (rollup date spans schedule rules).Instants property := by
  have folded : (spans.foldl Day.addSpan
      ⟨date, none, none, 0, spans.length, false, false, false⟩).Instants property := by
    apply List.foldlRecOn (motive := Day.Instants property)
    · simp [Day.Instants]
    · exact fun day before span member => before.addSpan (told span member)
  obtain ⟨isLate, same⟩ := rollup_eq date spans schedule rules
  rw [same]
  exact folded

def groupByBusinessDate (spans : List Span) (rules : Rules) : List (Time × List Span) :=
  groupBy (fun span => businessDate span.startedAt rules) id spans

theorem groupByBusinessDate_perm (spans : List Span) (rules : Rules) :
    ((groupByBusinessDate spans rules).flatMap Prod.snd).Perm spans := by
  simpa [groupByBusinessDate] using
    groupBy_perm (fun span => businessDate span.startedAt rules) id spans

end Presence.Attendance
