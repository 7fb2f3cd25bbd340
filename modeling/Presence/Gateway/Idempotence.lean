import Mathlib.Order.Bounds.Basic
import Presence.Data.Run
import Presence.Gateway.IngestSpec

namespace Presence.Gateway

open Presence.Data Presence.Go Presence.Postgres

/-! # Retried batches

A batch accounts for each of its events once, whatever was stored before it and
however often it comes again.
-/

/-- No further in the future than the clock of a device may run ahead. -/
def PunchEventRow.Timely (row : PunchEventRow) : Prop :=
  row.effectiveAt ≤ row.receivedAt + 5 * minute

/-- The slot was assigned at the instant of the punch. -/
def DeviceSlotRow.Covers (slot : DeviceSlotRow) (device : Uuid) (slotNo instant : Int) : Prop :=
  slot.deviceId = device ∧ slot.slotNo = slotNo ∧ slot.validFrom ≤ instant ∧
    slot.validTo.all (instant < ·) = true

/-- A fingerprint resolves to the person its slot was assigned to. -/
def PunchEventRow.Bound (row : PunchEventRow) (slots : List DeviceSlotRow) : Prop :=
  row.status = .resolved → row.credentialKind = .fingerprint →
    ∃ slot ∈ slots, ∃ slotNo, row.slotNo = some slotNo ∧
      slot.Covers row.deviceId slotNo row.effectiveAt ∧ row.personId = some slot.personId

variable {dev : Device} {now : Time} {ev : PunchEvent} {db after : Database} {deviceUptimeMs : Int}

/-! ## One event -/

theorem eventColumns_read {columns : EventColumns} (read : eventColumns ev = .ok columns) :
    CredentialKind.ofText ev.credentialKind = some columns.credentialKind ∧
      columns.slotNo = ev.slotNo := by
  simp only [eventColumns, except_bind_ok_iff, cast_ok_iff, check_ok_iff] at read
  obtain ⟨_, _, kind, kindRead, _, ⟨_, rfl⟩, _, _, _, _, _, _, _, _, _, _, returned⟩ := read
  cases returned
  exact ⟨kindRead, rfl⟩

theorem fingerprint_of_text {text : String}
    (read : CredentialKind.ofText text = some .fingerprint) : text = "fingerprint" := by
  simp only [CredentialKind.ofText] at read
  split at read
  next => rfl
  all_goals cases read

theorem slotBinding_invert {device : Uuid} {slotNo instant : Int} {credential : CredentialRow}
    {person : PersonRow} (found : db.slotBinding device slotNo instant = some (credential, person)) :
    ∃ slot ∈ db.deviceSlot, slot.Covers device slotNo instant ∧ slot.personId = person.id := by
  obtain ⟨slot, member, bound⟩ := List.exists_of_findSome?_eq_some found
  split at bound
  next covers =>
    simp only [bind, Option.bind_eq_some_iff] at bound
    obtain ⟨_, _, holder, named, returned⟩ := bound
    cases returned
    have same : person.id = slot.personId := by simpa using List.find?_some named
    exact ⟨slot, member, covers, same.symm⟩
  next => cases bound

theorem resolve_bound {effective : Time} {resolution : Resolution}
    (resolved : resolve db dev ev effective = .ok resolution) (status : resolution.status = .resolved)
    (kind : ev.credentialKind = "fingerprint") :
    ∃ slot ∈ db.deviceSlot, ∃ slotNo, ev.slotNo = some slotNo ∧
      slot.Covers dev.id slotNo (timestamptz effective.instant) ∧
      resolution.personId = some slot.personId := by
  simp only [resolve, kind, if_true] at resolved
  split at resolved
  next =>
    cases resolved
    cases status
  next slotNo given =>
    split at resolved
    next =>
      split at resolved
      next =>
        cases resolved
        cases status
      next credential person found =>
        obtain ⟨slot, member, covers, same⟩ := slotBinding_invert found
        have holder : some person.id = some slot.personId := by rw [same]
        split at resolved
        next =>
          cases resolved
          cases status
        next =>
          split at resolved
          next =>
            cases resolved
            cases status
          next =>
            cases resolved
            exact ⟨slot, member, slotNo, given, covers, holder⟩
    next => cases resolved

/-- A judged event is not in the future, and resolved as of its own time. -/
theorem judge_spec {judgement : Judgement} (positive : 0 < ev.seq) (fits : ev.Fits)
    (judged : judge db dev deviceUptimeMs now ev = .ok judgement) :
    judgement.effective.instant ≤ now.instant + 5 * minute ∧
      (judgement.resolution.status = .resolved → ev.credentialKind = "fingerprint" →
        ∃ slot ∈ db.deviceSlot, ∃ slotNo, ev.slotNo = some slotNo ∧
          slot.Covers dev.id slotNo (timestamptz judgement.effective.instant) ∧
          judgement.resolution.personId = some slot.personId) := by
  have named : ev.eventUuid ≠ "" := by
    intro empty
    have read := fits.eventUuid
    rw [empty] at read
    revert read
    decide
  unfold judge at judged
  simp only at judged
  split at judged
  next malformed =>
    rcases malformed with negative | empty
    · omega
    · exact absurd empty named
  next =>
    split at judged
    next =>
      cases judged
      refine ⟨?_, fun status => by cases status⟩
      change now.instant ≤ now.instant + 5 * minute
      simp only [minute, second, millisecond]
      omega
    next timely =>
      obtain ⟨resolution, resolved, returned⟩ := except_bind_ok_iff.mp judged
      cases returned
      exact ⟨Int.not_lt.mp timely, fun status kind => resolve_bound resolved status kind⟩

theorem timestamptz_le {first second : Int} (before : first ≤ second + 5 * minute) :
    timestamptz first ≤ timestamptz second + 5 * minute := by
  simp only [timestamptz, minute, Go.second, millisecond] at *
  omega

/-- What one event did and what was said about it. -/
inductive EventOutcome (db : Database) (dev : Device) (ev : PunchEvent) : Database → Verdict → Prop
  | kept (id : Nat) (stored : db.hasEvent dev.id ev.seq = true) :
      EventOutcome db dev ev { db with nextEventId := id } .duplicate
  | added (id : Nat) (row : PunchEventRow) (verdict : Verdict) (said : verdict ≠ .duplicate)
      (key : row.key = (dev.id, ev.seq)) (fresh : db.hasEvent dev.id ev.seq = false)
      (timely : row.Timely) (bound : row.Bound db.deviceSlot) :
      EventOutcome db dev ev { db with nextEventId := id, punchEvent := db.punchEvent ++ [row] } verdict

theorem newRow_timely {judgement : Judgement} {columns : EventColumns}
    (timely : judgement.effective.instant ≤ now.instant + 5 * minute) :
    (newRow db dev ev now judgement columns).Timely :=
  timestamptz_le timely

theorem ingestEvent_outcome {verdict : Verdict}
    (done : ingestEvent dev deviceUptimeMs now db ev = .ok (after, verdict)) :
    EventOutcome db dev ev after verdict := by
  obtain ⟨judgement, columns, judged, read, positive, effect⟩ := ingestEvent_cases done
  obtain ⟨timely, bound⟩ := judge_spec positive (eventColumns_invert read).1 judged
  obtain ⟨kind, slotNo⟩ := eventColumns_read read
  obtain ⟨stored, rfl, rfl⟩ | ⟨fresh, -, said, rfl⟩ := effect
  · exact .kept _ stored
  · have rowBound : (newRow db dev ev now judgement columns).Bound db.deviceSlot := by
      intro status fingerprint
      have text : ev.credentialKind = "fingerprint" := by
        have known : columns.credentialKind = .fingerprint := fingerprint
        rw [known] at kind
        exact fingerprint_of_text kind
      obtain ⟨slot, member, number, given, covers, person⟩ := bound status text
      exact ⟨slot, member, number, slotNo.trans given, covers, person⟩
    exact .added _ _ _ said rfl fresh (newRow_timely timely) rowBound

/-! ## The loop -/

variable {events : List PunchEvent} {verdicts : List (Int × Verdict)}

/-- The rows a loop adds, and the tables it leaves. -/
structure Adds (db after : Database) : Prop where
  rows : ∃ added, after.punchEvent = db.punchEvent ++ added ∧
    ∀ row ∈ added, row.Timely ∧ row.Bound db.deviceSlot
  deviceSlot : after.deviceSlot = db.deviceSlot

theorem ingestEvents_adds
    (done : ingestEvents dev deviceUptimeMs now db events = .ok (after, verdicts)) :
    Adds db after := by
  induction events generalizing db verdicts with
  | nil =>
      cases done
      exact ⟨⟨[], by simp⟩, rfl⟩
  | cons ev events ih =>
      obtain ⟨middle, verdict, rest, first, remaining, -⟩ := ingestEvents_cons_invert done
      obtain ⟨⟨added, later, sound⟩, slots⟩ := ih remaining
      cases ingestEvent_outcome first with
      | kept id stored => exact ⟨⟨added, later, sound⟩, slots⟩
      | added id row verdict said key fresh timely bound =>
          refine ⟨⟨row :: added, ?_, List.forall_mem_cons.mpr ⟨⟨timely, bound⟩, sound⟩⟩, slots⟩
          rw [later]
          simp

/-- The occurrences that are reported as duplicates: all of a stored sequence number,
all but one of a new one. -/
theorem ingestEvents_duplicates (ack : Int)
    (done : ingestEvents dev deviceUptimeMs now db events = .ok (after, verdicts)) (seq : Int) :
    (batchResponse now ack verdicts).duplicates.count seq =
      if db.hasEvent dev.id seq then (events.map PunchEvent.seq).count seq
      else (events.map PunchEvent.seq).count seq - 1 := by
  induction events generalizing db verdicts with
  | nil =>
      cases done
      simp [batchResponse]
  | cons ev events ih =>
      obtain ⟨middle, verdict, rest, first, remaining, rfl⟩ := ingestEvents_cons_invert done
      have outcome := ingestEvent_outcome first
      obtain ⟨-, -, uuid, -, effect⟩ := ingestEvent_invert first
      have later := ih remaining
      rw [effect.hasEvent] at later
      rw [List.map_cons, List.count_cons]
      by_cases same : ev.seq = seq
      · subst same
        cases outcome with
        | kept id stored =>
            simp [batchResponse, stored] at later ⊢
            exact later
        | added id row verdict said key fresh timely bound =>
            cases verdict with
            | duplicate => exact absurd rfl said
            | accepted =>
                simp [batchResponse, fresh] at later ⊢
                exact later
            | rejected =>
                simp [batchResponse, fresh] at later ⊢
                exact later
      · have other : (seq == ev.seq) = false := beq_eq_false_iff_ne.mpr (Ne.symm same)
        simp only [other, Bool.or_false] at later
        have counted : (batchResponse now ack ((ev.seq, verdict) :: rest)).duplicates.count seq =
            (batchResponse now ack rest).duplicates.count seq := by
          cases verdict <;> simp [batchResponse, same]
        rw [counted, later]
        simp [same]

theorem batchResponse_perm (ack : Int) (verdicts : List (Int × Verdict)) :
    let response := batchResponse now ack verdicts
    (response.accepted ++ response.duplicates ++ response.rejected.map Rejection.seq).Perm
      (verdicts.map (·.1)) := by
  induction verdicts with
  | nil => exact .nil
  | cons first rest ih =>
      obtain ⟨seq, verdict⟩ := first
      cases verdict with
      | accepted => exact .cons seq ih
      | duplicate =>
          refine .trans ?_ (.cons seq ih)
          simp only [batchResponse, List.filterMap_cons, List.append_assoc]
          exact List.perm_middle
      | rejected reason =>
          refine .trans ?_ (.cons seq ih)
          simp only [batchResponse, List.filterMap_cons, List.map_cons]
          exact List.perm_middle

/-! ## The batch -/

variable {sortSlice : SortSlice} {req : EventsRequest} {response : EventsResponse}

/-- No device is acknowledged less than it was. -/
def AckGrows (db after : Database) : Prop :=
  List.Forall₂ (fun before row => row.id = before.id ∧ before.lastAckSeq ≤ row.lastAckSeq)
    db.device after.device

theorem AckGrows.refl (db : Database) : AckGrows db db :=
  List.forall₂_same.mpr fun _ _ => ⟨rfl, Int.le_refl _⟩

theorem AckGrows.trans {first second third : Database} (left : AckGrows first second)
    (right : AckGrows second third) : AckGrows first third := by
  simp only [AckGrows] at *
  generalize first.device = early at left
  generalize second.device = middle at left right
  generalize third.device = late at right ⊢
  induction left generalizing late with
  | nil =>
      cases right
      exact .nil
  | cons head tail ih =>
      cases right with
      | cons next rest =>
          exact .cons ⟨next.1.trans head.1, Int.le_trans head.2 next.2⟩ (ih _ rest)

/-- The batch accounts for each of its events, and for nothing else. -/
structure Accounted (db : Database) (dev : Device) (req : EventsRequest) (after : Database)
    (response : EventsResponse) : Prop where
  seqs : (response.accepted ++ response.duplicates ++ response.rejected.map Rejection.seq).Perm
    (req.events.map PunchEvent.seq)
  ack : IsGreatest {seq | seq = dev.lastAckSeq ∨ ∃ ev ∈ req.events, ev.seq = seq}
    response.ackThrough
  duplicates : ∀ seq, response.duplicates.count seq =
    if db.hasEvent dev.id seq then (req.events.map PunchEvent.seq).count seq
    else (req.events.map PunchEvent.seq).count seq - 1
  rows : ∃ added, after.punchEvent = db.punchEvent ++ added ∧
    ∀ row ∈ added, row.Timely ∧ row.Bound db.deviceSlot
  device : AckGrows db after

theorem ingestBatch_accounted
    (done : ingestBatch sortSlice db dev req now = .ok (after, response)) :
    Accounted db dev req after response := by
  obtain ⟨-, -, -, -, above, covers, origin, device⟩ := ingestBatch_effect done
  simp only [ingestBatch, except_bind_ok_iff] at done
  obtain ⟨⟨middle, verdicts⟩, loop, logged, log, final, update, returned⟩ := done
  cases returned
  obtain ⟨fits, rfl⟩ := check_ok_iff.mp update
  obtain ⟨sameRows, -⟩ := insertSyncBatch_invert log
  have sorted : ((sortSlice.sort req.events).map PunchEvent.seq).Perm
      (req.events.map PunchEvent.seq) := (sortSlice.perm req.events).map _
  refine ⟨?_, ⟨?_, ?_⟩, ?_, ?_, ?_⟩
  · have said := @batchResponse_perm now (ackLoop (verdicts.map (·.1)) dev.lastAckSeq
      (sortSlice.sort req.events)) verdicts
    rw [ingestEvents_verdicts loop] at said
    exact said.trans sorted
  · rcases origin with kept | ⟨ev, member, same⟩
    · exact .inl kept
    · exact .inr ⟨ev, member, same.symm⟩
  · intro seq named
    rcases named with rfl | ⟨ev, member, rfl⟩
    · exact above
    · exact covers ev member
  · intro seq
    rw [ingestEvents_duplicates _ loop, sorted.count_eq]
  · obtain ⟨added, later, sound⟩ := (ingestEvents_adds loop).rows
    exact ⟨added, by simpa [sameRows] using later, sound⟩
  · rw [AckGrows, device]
    refine List.forall₂_map_right_iff.mpr (List.forall₂_same.mpr fun row _ => ?_)
    split
    · exact ⟨rfl, Int.le_max_left _ _⟩
    · exact ⟨rfl, Int.le_refl _⟩

/-! ## Runs

Batches commit one after the other, each for a device that was loaded at some time
before.  Between two of them slots may be assigned anew.
-/

inductive IngestInput where
  | ingest (dev : Device) (req : EventsRequest) (now : Time)
  | reassign (person : List PersonRow) (credential : List CredentialRow)
      (deviceSlot : List DeviceSlotRow)

def ingestStep (sortSlice : SortSlice) (db : Database) : IngestInput → Option Database
  | .ingest dev req now =>
      match ingestBatch sortSlice db dev req now with
      | .ok (after, _) => some after
      | .error _ => none
  | .reassign person credential deviceSlot => some { db with person, credential, deviceSlot }

theorem ingestStep_ingest
    (taken : ingestStep sortSlice db (.ingest dev req now) = some after) :
    ∃ response, ingestBatch sortSlice db dev req now = .ok (after, response) := by
  cases done : ingestBatch sortSlice db dev req now with
  | error refused =>
      simp only [ingestStep, done] at taken
      cases taken
  | ok result =>
      simp only [ingestStep, done, Option.some.injEq] at taken
      exact ⟨result.2, by rw [← taken]⟩

/-- What any number of steps keeps. -/
structure Extends (db after : Database) : Prop where
  rows : ∃ added, after.punchEvent = db.punchEvent ++ added ∧ ∀ row ∈ added, row.Timely
  device : AckGrows db after

theorem Extends.refl (db : Database) : Extends db db :=
  ⟨⟨[], by simp⟩, .refl db⟩

theorem Extends.trans {first second third : Database} (left : Extends first second)
    (right : Extends second third) : Extends first third := by
  obtain ⟨⟨early, earlyRows, earlyTimely⟩, earlyDevice⟩ := left
  obtain ⟨⟨late, lateRows, lateTimely⟩, lateDevice⟩ := right
  refine ⟨⟨early ++ late, ?_, List.forall_mem_append.mpr ⟨earlyTimely, lateTimely⟩⟩,
    earlyDevice.trans lateDevice⟩
  rw [lateRows, earlyRows, List.append_assoc]

theorem ingestStep_extends {input : IngestInput}
    (taken : ingestStep sortSlice db input = some after) : Extends db after := by
  cases input with
  | ingest dev req now =>
      obtain ⟨response, done⟩ := ingestStep_ingest taken
      obtain ⟨-, -, -, ⟨added, rows, sound⟩, device⟩ := ingestBatch_accounted done
      exact ⟨⟨added, rows, fun row member => (sound row member).1⟩, device⟩
  | reassign person credential deviceSlot =>
      cases taken
      exact ⟨⟨[], by simp⟩, .refl db⟩

/-- Along every run the table of events only grows, by rows that are not in the
future; each batch in it answers for its own events. -/
theorem ingest_accounts_for_every_event (sortSlice : SortSlice) {start final : Database}
    {inputs : List IngestInput} (timely : ∀ row ∈ start.punchEvent, row.Timely)
    (ran : run (ingestStep sortSlice) start inputs = some final) :
    (∀ row ∈ final.punchEvent, row.Timely) ∧ start.punchEvent <+: final.punchEvent ∧
    AckGrows start final ∧
    ∀ early dev req now late, inputs = early ++ .ingest dev req now :: late →
      ∃ before after response, run (ingestStep sortSlice) start early = some before ∧
        ingestBatch sortSlice before dev req now = .ok (after, response) ∧
        run (ingestStep sortSlice) after late = some final ∧
        Accounted before dev req after response := by
  have preserved : ∀ db input after, True → ingestStep sortSlice db input = some after →
      True ∧ Extends db after := fun _ _ _ _ taken => ⟨trivial, ingestStep_extends taken⟩
  obtain ⟨⟨added, rows, sound⟩, device⟩ : Extends start final :=
    run_relation Extends Extends.refl Extends.trans preserved trivial ran
  refine ⟨?_, ⟨added, rows.symm⟩, device, ?_⟩
  · rw [rows]
    exact List.forall_mem_append.mpr ⟨timely, sound⟩
  · intro early dev req now late split
    rw [split] at ran
    obtain ⟨before, ranEarly, rest⟩ := run_append_invert ran
    obtain ⟨after, taken, ranLate⟩ := run_cons_invert rest
    obtain ⟨response, done⟩ := ingestStep_ingest taken
    exact ⟨before, after, response, ranEarly, done, ranLate, ingestBatch_accounted done⟩

/-! A batch and its retry, with one event of it changed: the retry stores nothing and
reports both events. -/

def sampleSecondUuid : String := "0a1b2c3d-0000-4000-8000-000000000003"

def sampleRetry : List IngestInput :=
  [.ingest sampleDevice (sampleBatch sampleSecondUuid) ⟨0, 0⟩,
    .ingest sampleDevice { sampleBatch sampleSecondUuid with deviceUptimeMs := 9000 } ⟨minute, 0⟩]

theorem sampleRetry_accounted :
    ∃ before after response,
      ingestBatch sortBySeq before sampleDevice
        { sampleBatch sampleSecondUuid with deviceUptimeMs := 9000 } ⟨minute, 0⟩ =
          .ok (after, response) ∧
      run (ingestStep sortBySeq) emptyDatabase (sampleRetry.take 1) = some before ∧
      response.duplicates.count 1 = if before.hasEvent sampleDevice.id 1 then 1 else 0 := by
  have possible : (run (ingestStep sortBySeq) emptyDatabase sampleRetry).isSome = true := by
    decide
  obtain ⟨final, ran⟩ := Option.isSome_iff_exists.mp possible
  obtain ⟨-, -, -, split⟩ := ingest_accounts_for_every_event sortBySeq (by simp [emptyDatabase]) ran
  obtain ⟨before, after, response, early, done, -, accounted⟩ := split (sampleRetry.take 1) _ _ _ [] rfl
  exact ⟨before, after, response, done, early, accounted.duplicates 1⟩

end Presence.Gateway
