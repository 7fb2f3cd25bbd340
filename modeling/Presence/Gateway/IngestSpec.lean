import Mathlib.Data.List.Sort
import Presence.Gateway.Ingest

namespace Presence.Gateway

open Presence.Data Presence.Go Presence.Postgres

/-! # What a successful ingest did, and when it succeeds

`ingestEvent_cases` says everything one event can do; the facts about one
event and about the loop are read off it.
-/

variable {dev : Device} {now : Time} {ev : PunchEvent} {db after : Database}

theorem cast_ok_iff {error : Error} {found : Option α} {value : α} :
    cast error found = .ok value ↔ found = some value := by
  cases found <;> simp [cast]

theorem check_ok_iff {error : Error} {accepted : Bool} {value result : α} :
    check error accepted value = .ok result ↔ accepted = true ∧ value = result := by
  cases accepted <;> simp [check]

/-! ## One event -/

/-- Every value of the event is one its column takes. -/
structure PunchEvent.Fits (ev : PunchEvent) : Prop where
  eventUuid : (uuidIn ev.eventUuid).isSome
  credentialKind : (CredentialKind.ofText ev.credentialKind).isSome
  slotNo : ev.slotNo.all fitsInt4
  credentialRef : validText ev.credentialRef
  matchScore : ev.matchScore.all fitsInt2
  timeSource : (TimeSource.ofText ev.timeSource).isSome
  directionHint : (PunchDirection.ofText ev.hint).isSome
  deviceMode : validText ev.deviceMode

theorem eventColumns_invert {columns : EventColumns} (read : eventColumns ev = .ok columns) :
    ev.Fits ∧ uuidIn ev.eventUuid = some columns.eventUuid := by
  simp only [eventColumns, except_bind_ok_iff, cast_ok_iff, check_ok_iff] at read
  obtain ⟨uuid, uuidRead, kind, kindRead, _, ⟨slotOk, _⟩, _, ⟨refOk, _⟩, _, ⟨scoreOk, _⟩,
    source, sourceRead, hint, hintRead, _, ⟨modeOk, _⟩, returned⟩ := read
  cases returned
  refine ⟨⟨?_, ?_, slotOk, refOk, scoreOk, ?_, ?_, modeOk⟩, uuidRead⟩
  · simp [uuidRead]
  · simp [kindRead]
  · simp [sourceRead]
  · simp [hintRead]

theorem PunchEvent.Fits.eventColumns (fits : ev.Fits) :
    ∃ columns, eventColumns ev = .ok columns := by
  obtain ⟨uuid, uuidRead⟩ := Option.isSome_iff_exists.mp fits.eventUuid
  obtain ⟨kind, kindRead⟩ := Option.isSome_iff_exists.mp fits.credentialKind
  obtain ⟨source, sourceRead⟩ := Option.isSome_iff_exists.mp fits.timeSource
  obtain ⟨hint, hintRead⟩ := Option.isSome_iff_exists.mp fits.directionHint
  simp only [Gateway.eventColumns, except_bind_ok_iff, cast_ok_iff, check_ok_iff]
  exact ⟨_, uuid, uuidRead, kind, kindRead, _, ⟨fits.slotNo, rfl⟩, _, ⟨fits.credentialRef, rfl⟩,
    _, ⟨fits.matchScore, rfl⟩, source, sourceRead, hint, hintRead, _, ⟨fits.deviceMode, rfl⟩, rfl⟩

/-- What one successful event does to the table of events. -/
inductive EventEffect (db : Database) (device : Uuid) (seq : Int) (uuid : Uuid) : Database → Prop
  | kept (id : Nat) (stored : db.hasEvent device seq = true) :
      EventEffect db device seq uuid { db with nextEventId := id }
  | added (id : Nat) (row : PunchEventRow) (key : row.key = (device, seq))
      (rowUuid : row.eventUuid = uuid) (fresh : db.hasEvent device seq = false)
      (unused : db.hasEventUuid uuid = false) :
      EventEffect db device seq uuid
        { db with nextEventId := id, punchEvent := db.punchEvent ++ [row] }

theorem insertEvent_invert {judgement : Judgement} {inserted : Bool}
    (done : insertEvent db dev ev now judgement = .ok (after, inserted)) :
    ∃ columns, eventColumns ev = .ok columns ∧ 0 < ev.seq ∧
      (inserted = false ∧ db.hasEvent dev.id ev.seq = true ∧
          after = { db with nextEventId := db.nextEventId + 1 } ∨
        inserted = true ∧ db.hasEvent dev.id ev.seq = false ∧
          db.hasEventUuid columns.eventUuid = false ∧
          after = { db with
            nextEventId := db.nextEventId + 1
            punchEvent := db.punchEvent ++ [newRow db dev ev now judgement columns] }) := by
  simp only [insertEvent, except_bind_ok_iff] at done
  obtain ⟨columns, read, inserted⟩ := done
  split at inserted
  · contradiction
  · rename_i positive
    refine ⟨columns, read, Int.not_le.mp positive, ?_⟩
    split at inserted
    · contradiction
    · split at inserted
      · rename_i stored
        cases inserted
        exact .inl ⟨rfl, stored, rfl⟩
      · rename_i fresh
        split at inserted
        · contradiction
        · rename_i unused
          cases inserted
          exact .inr ⟨rfl, Bool.eq_false_iff.mpr fresh, Bool.eq_false_iff.mpr unused, rfl⟩

theorem resolve_has_person {resolution : Resolution} {effective : Time}
    (resolved : resolve db dev ev effective = .ok resolution)
    (status : resolution.status = .resolved) : resolution.personId ≠ none := by
  simp only [resolve] at resolved
  repeat' split at resolved
  all_goals cases resolved <;> simp_all [Resolution.refused]

theorem judge_has_person {deviceUptimeMs : Int} {judgement : Judgement}
    (judged : judge db dev deviceUptimeMs now ev = .ok judgement)
    (status : judgement.resolution.status = .resolved) : judgement.resolution.personId ≠ none := by
  unfold judge at judged
  simp only at judged
  split at judged
  · cases judged
    contradiction
  · split at judged
    · cases judged
      contradiction
    · obtain ⟨resolution, resolved, returned⟩ := except_bind_ok_iff.mp judged
      cases returned
      exact resolve_has_person resolved status

theorem PunchEvent.Fits.resolve (fits : ev.Fits) (db : Database) (dev : Device) (effective : Time) :
    ∃ resolution, resolve db dev ev effective = .ok resolution := by
  have slotFits := fits.slotNo
  simp only [Gateway.resolve]
  repeat' split
  all_goals first
    | exact ⟨_, rfl⟩
    | simp_all

theorem PunchEvent.Fits.judge (fits : ev.Fits) (db : Database) (dev : Device)
    (deviceUptimeMs : Int) (now : Time) :
    ∃ judgement, judge db dev deviceUptimeMs now ev = .ok judgement := by
  unfold Gateway.judge
  simp only
  split
  · exact ⟨_, rfl⟩
  · split
    · exact ⟨_, rfl⟩
    · obtain ⟨resolution, resolved⟩ := fits.resolve db dev (effectiveTime ev deviceUptimeMs now).1
      exact ⟨_, except_bind_ok_iff.mpr ⟨resolution, resolved, rfl⟩⟩

/-- Everything one event can do. -/
theorem ingestEvent_cases {deviceUptimeMs : Int} {verdict : Verdict}
    (done : ingestEvent dev deviceUptimeMs now db ev = .ok (after, verdict)) :
    ∃ judgement columns, judge db dev deviceUptimeMs now ev = .ok judgement ∧
      eventColumns ev = .ok columns ∧ 0 < ev.seq ∧
      (db.hasEvent dev.id ev.seq = true ∧ verdict = .duplicate ∧
          after = { db with nextEventId := db.nextEventId + 1 } ∨
        db.hasEvent dev.id ev.seq = false ∧ db.hasEventUuid columns.eventUuid = false ∧
          verdict ≠ .duplicate ∧
          after = { db with
            nextEventId := db.nextEventId + 1
            punchEvent := db.punchEvent ++ [newRow db dev ev now judgement columns] }) := by
  simp only [ingestEvent, except_bind_ok_iff] at done
  obtain ⟨judgement, judged, ⟨next, inserted⟩, insert, said⟩ := done
  obtain ⟨columns, read, positive, effect⟩ := insertEvent_invert insert
  refine ⟨judgement, columns, judged, read, positive, ?_⟩
  obtain ⟨rfl, stored, rfl⟩ | ⟨rfl, fresh, unused, rfl⟩ := effect
  · cases said
    exact .inl ⟨stored, rfl, rfl⟩
  · refine .inr ⟨fresh, unused, ?_⟩
    simp only [Bool.not_true, Bool.false_eq_true, if_false] at said
    split at said
    · cases said
      simp
    · cases said
      simp

theorem ingestEvent_invert {deviceUptimeMs : Int} {verdict : Verdict}
    (done : ingestEvent dev deviceUptimeMs now db ev = .ok (after, verdict)) :
    ev.Fits ∧ 0 < ev.seq ∧
      ∃ uuid, uuidIn ev.eventUuid = some uuid ∧ EventEffect db dev.id ev.seq uuid after := by
  obtain ⟨judgement, columns, -, read, positive, effect⟩ := ingestEvent_cases done
  obtain ⟨fits, uuidRead⟩ := eventColumns_invert read
  refine ⟨fits, positive, _, uuidRead, ?_⟩
  obtain ⟨stored, -, rfl⟩ | ⟨fresh, unused, -, rfl⟩ := effect
  · exact .kept _ stored
  · exact .added _ _ rfl rfl fresh unused

/-- An event that fits, has a positive `seq` and is either stored already or
brings an unused uuid, is ingested. -/
theorem ingestEvent_exists (fits : ev.Fits) (positive : 0 < ev.seq) (deviceUptimeMs : Int)
    (now : Time) (free : db.hasEvent dev.id ev.seq = true ∨
      ∀ uuid, uuidIn ev.eventUuid = some uuid → db.hasEventUuid uuid = false) :
    ∃ after verdict, ingestEvent dev deviceUptimeMs now db ev = .ok (after, verdict) := by
  obtain ⟨judgement, judged⟩ := fits.judge db dev deviceUptimeMs now
  obtain ⟨columns, read⟩ := fits.eventColumns
  have uuidRead := (eventColumns_invert read).2
  have person := judge_has_person judged
  have inserted : ∃ after inserted, insertEvent db dev ev now judgement = .ok (after, inserted) := by
    simp only [insertEvent, except_bind_ok_iff]
    refine Exists.imp (fun after => Exists.imp fun inserted done => ⟨columns, read, done⟩) ?_
    have checked : ¬ (newRow db dev ev now judgement columns).deviceSeq ≤ 0 := Int.not_le.mpr positive
    rw [if_neg checked, if_neg (fun both => person both.1 both.2)]
    split
    · exact ⟨_, _, rfl⟩
    · rename_i missing
      rcases free with stored | unused
      · exact absurd stored missing
      · have unused : ¬ db.hasEventUuid columns.eventUuid = true := by simp [unused _ uuidRead]
        exact ⟨_, _, if_neg unused⟩
  obtain ⟨after, inserted, insert⟩ := inserted
  simp only [ingestEvent, except_bind_ok_iff]
  refine Exists.imp (fun result => Exists.imp fun verdict done =>
    ⟨judgement, judged, (after, inserted), insert, done⟩) ?_
  simp only
  repeat' split
  all_goals exact ⟨_, _, rfl⟩

/-! ## What an effect keeps -/

theorem EventEffect.hasEvent {device : Uuid} {seq : Int} {uuid : Uuid}
    (effect : EventEffect db device seq uuid after) (other : Int) :
    after.hasEvent device other = (db.hasEvent device other || other == seq) := by
  cases effect with
  | kept id stored =>
      by_cases same : other = seq
      · subst same
        simpa [Database.hasEvent] using stored
      · simp [Database.hasEvent, same]
  | added id row key rowUuid fresh unused =>
      have last : ((device, seq) == (device, other)) = (other == seq) := by
        rw [Bool.eq_iff_iff, beq_iff_eq, beq_iff_eq, Prod.mk.injEq]
        exact ⟨fun same => same.2.symm, fun same => ⟨rfl, same.symm⟩⟩
      simp [Database.hasEvent, key, last]

/-- The table of events only grows, and nothing else a device row reads changes. -/
structure Grows (db after : Database) : Prop where
  rows : db.punchEvent <+: after.punchEvent
  device : after.device = db.device
  wellFormed : db.WellFormed → after.WellFormed

theorem Grows.refl (db : Database) : Grows db db :=
  ⟨List.prefix_rfl, rfl, id⟩

theorem Grows.trans {first second third : Database} (left : Grows first second)
    (right : Grows second third) : Grows first third :=
  ⟨left.rows.trans right.rows, right.device.trans left.device, right.wellFormed ∘ left.wellFormed⟩

theorem Grows.hasEvent (grows : Grows db after) {device : Uuid} {seq : Int}
    (stored : db.hasEvent device seq = true) : after.hasEvent device seq = true := by
  exact Database.hasEvent_iff.mpr
    ((grows.rows.map PunchEventRow.key).subset (Database.hasEvent_iff.mp stored))

private theorem nodup_concat {values : List α} {value : α} (nodup : values.Nodup)
    (missing : value ∉ values) : (values ++ [value]).Nodup :=
  (List.perm_append_singleton value values).nodup_iff.mpr (List.nodup_cons.mpr ⟨missing, nodup⟩)

theorem EventEffect.grows {device : Uuid} {seq : Int} {uuid : Uuid}
    (effect : EventEffect db device seq uuid after) : Grows db after := by
  cases effect with
  | kept id stored => exact ⟨List.prefix_rfl, rfl, fun valid => ⟨valid.keys, valid.uuids⟩⟩
  | added id row key rowUuid fresh unused =>
      have freshKey : row.key ∉ db.keys := by
        rw [key, ← Database.hasEvent_iff, fresh]
        exact Bool.false_ne_true
      have freshUuid : row.eventUuid ∉ db.uuids := by
        rw [rowUuid, ← Database.hasEventUuid_iff, unused]
        exact Bool.false_ne_true
      refine ⟨List.prefix_append _ _, rfl, fun valid => ⟨?_, ?_⟩⟩
      · simpa [Database.keys] using nodup_concat valid.keys freshKey
      · simpa [Database.uuids] using nodup_concat valid.uuids freshUuid

/-! ## The loop -/

variable {deviceUptimeMs : Int} {events : List PunchEvent} {verdicts : List (Int × Verdict)}

theorem ingestEvents_cons_invert
    (done : ingestEvents dev deviceUptimeMs now db (ev :: events) = .ok (after, verdicts)) :
    ∃ middle verdict rest, ingestEvent dev deviceUptimeMs now db ev = .ok (middle, verdict) ∧
      ingestEvents dev deviceUptimeMs now middle events = .ok (after, rest) ∧
      verdicts = (ev.seq, verdict) :: rest := by
  simp only [ingestEvents, except_bind_ok_iff] at done
  obtain ⟨⟨middle, verdict⟩, first, ⟨final, rest⟩, remaining, returned⟩ := done
  cases returned
  exact ⟨middle, verdict, rest, first, remaining, rfl⟩

theorem ingestEvents_grows
    (done : ingestEvents dev deviceUptimeMs now db events = .ok (after, verdicts)) :
    Grows db after := by
  induction events generalizing db verdicts with
  | nil => cases done; exact .refl _
  | cons ev events ih =>
      obtain ⟨middle, verdict, rest, first, remaining, _⟩ := ingestEvents_cons_invert done
      obtain ⟨_, _, uuid, _, effect⟩ := ingestEvent_invert first
      exact effect.grows.trans (ih remaining)

/-- Every event of a successful loop fits, and is stored at its end. -/
theorem ingestEvents_stored
    (done : ingestEvents dev deviceUptimeMs now db events = .ok (after, verdicts)) :
    ∀ ev ∈ events, ev.Fits ∧ 0 < ev.seq ∧ after.hasEvent dev.id ev.seq = true := by
  induction events generalizing db verdicts with
  | nil => simp
  | cons first events ih =>
      obtain ⟨middle, verdict, rest, head, remaining, _⟩ := ingestEvents_cons_invert done
      obtain ⟨fits, positive, uuid, _, effect⟩ := ingestEvent_invert head
      intro ev member
      rcases List.mem_cons.mp member with same | later
      · subst same
        have stored : middle.hasEvent dev.id ev.seq = true := by simp [effect.hasEvent]
        exact ⟨fits, positive, (ingestEvents_grows remaining).hasEvent stored⟩
      · exact ih remaining ev later

theorem ingestEvents_verdicts
    (done : ingestEvents dev deviceUptimeMs now db events = .ok (after, verdicts)) :
    verdicts.map (·.1) = events.map PunchEvent.seq := by
  induction events generalizing db verdicts with
  | nil => cases done; rfl
  | cons ev events ih =>
      obtain ⟨middle, verdict, rest, _, remaining, rfl⟩ := ingestEvents_cons_invert done
      simp [ih remaining]

/-! The events a loop would insert: for each sequence number that is not stored,
the first event that carries it. -/

def newEvents (stored : Int → Bool) : List PunchEvent → List PunchEvent
  | [] => []
  | ev :: rest =>
      if stored ev.seq then newEvents stored rest
      else ev :: newEvents (fun seq => stored seq || seq == ev.seq) rest

def newUuids (stored : Int → Bool) (events : List PunchEvent) : List Uuid :=
  (newEvents stored events).filterMap fun ev => uuidIn ev.eventUuid

/-- The uuids in the table, then those still to come, do not change across an event. -/
theorem EventEffect.uuids {uuid : Uuid} (read : uuidIn ev.eventUuid = some uuid)
    (effect : EventEffect db dev.id ev.seq uuid after) (rest : List PunchEvent) :
    after.uuids ++ newUuids (after.hasEvent dev.id) rest =
      db.uuids ++ newUuids (db.hasEvent dev.id) (ev :: rest) := by
  have stored : after.hasEvent dev.id = fun seq => db.hasEvent dev.id seq || seq == ev.seq :=
    funext effect.hasEvent
  cases effect with
  | kept id kept =>
      have same : (fun seq => db.hasEvent dev.id seq || seq == ev.seq) = db.hasEvent dev.id := by
        funext seq
        by_cases same : seq = ev.seq <;> simp [same, kept]
      rw [stored, same]
      simp [newUuids, newEvents, kept, Database.uuids]
  | added id row key rowUuid fresh unused =>
      rw [stored]
      simp [newUuids, newEvents, fresh, Database.uuids, read, rowUuid]

/-- The loop succeeds exactly when every event fits and no uuid would be stored twice. -/
theorem ingestEvents_exists_iff (deviceUptimeMs : Int) (now : Time) (valid : db.WellFormed) :
    (∃ after verdicts, ingestEvents dev deviceUptimeMs now db events = .ok (after, verdicts)) ↔
      (∀ ev ∈ events, ev.Fits ∧ 0 < ev.seq) ∧
        (db.uuids ++ newUuids (db.hasEvent dev.id) events).Nodup := by
  induction events generalizing db with
  | nil => simp [ingestEvents, newUuids, newEvents, valid.uuids]
  | cons ev events ih =>
      constructor
      · intro given
        obtain ⟨after, verdicts, done⟩ := given
        obtain ⟨middle, verdict, rest, first, remaining, _⟩ := ingestEvents_cons_invert done
        obtain ⟨fits, positive, uuid, read, effect⟩ := ingestEvent_invert first
        obtain ⟨fine, unique⟩ := (ih (effect.grows.wellFormed valid)).mp ⟨after, rest, remaining⟩
        rw [effect.uuids read] at unique
        exact ⟨List.forall_mem_cons.mpr ⟨⟨fits, positive⟩, fine⟩, unique⟩
      · intro given
        obtain ⟨fine, unique⟩ := given
        obtain ⟨⟨fits, positive⟩, restFine⟩ := List.forall_mem_cons.mp fine
        have free : db.hasEvent dev.id ev.seq = true ∨
            ∀ uuid, uuidIn ev.eventUuid = some uuid → db.hasEventUuid uuid = false := by
          cases stored : db.hasEvent dev.id ev.seq with
          | true => exact Or.inl rfl
          | false =>
              refine Or.inr fun uuid read => ?_
              rw [Bool.eq_false_iff]
              intro used
              have fresh := List.disjoint_of_nodup_append unique (Database.hasEventUuid_iff.mp used)
              simp [newUuids, newEvents, stored, read] at fresh
        obtain ⟨middle, verdict, first⟩ :=
          ingestEvent_exists fits positive deviceUptimeMs now free
        obtain ⟨_, _, uuid, read, effect⟩ := ingestEvent_invert first
        rw [← effect.uuids read] at unique
        obtain ⟨after, rest, remaining⟩ := (ih (effect.grows.wellFormed valid)).mpr ⟨restFine, unique⟩
        refine ⟨after, (ev.seq, verdict) :: rest, ?_⟩
        simp only [ingestEvents, except_bind_ok_iff]
        exact ⟨(middle, verdict), first, (after, rest), remaining, rfl⟩

/-! ## The batch -/

variable {sortSlice : SortSlice} {req : EventsRequest} {response : EventsResponse}

theorem ackLoop_spec {stored : List Int} (all : ∀ ev ∈ events, ev.seq ∈ stored) (ack : Int) :
    ack ≤ ackLoop stored ack events ∧ (∀ ev ∈ events, ev.seq ≤ ackLoop stored ack events) ∧
      (ackLoop stored ack events = ack ∨ ∃ ev ∈ events, ackLoop stored ack events = ev.seq) := by
  induction events generalizing ack with
  | nil => simp [ackLoop]
  | cons ev events ih =>
      obtain ⟨first, rest⟩ := List.forall_mem_cons.mp all
      obtain ⟨above, bound, origin⟩ := ih rest (if ev.seq > ack then ev.seq else ack)
      have raised : ack ≤ (if ev.seq > ack then ev.seq else ack) ∧
          ev.seq ≤ (if ev.seq > ack then ev.seq else ack) := by
        split <;> omega
      rw [ackLoop, if_pos first]
      refine ⟨Int.le_trans raised.1 above,
        List.forall_mem_cons.mpr ⟨Int.le_trans raised.2 above, bound⟩, ?_⟩
      rcases origin with same | ⟨later, member, same⟩
      · rw [same]
        split
        · exact Or.inr ⟨ev, List.mem_cons_self, rfl⟩
        · exact Or.inl rfl
      · exact Or.inr ⟨later, List.mem_cons_of_mem ev member, same⟩

/-- What a committed batch did. -/
structure BatchEffect (db : Database) (dev : Device) (req : EventsRequest) (after : Database)
    (response : EventsResponse) : Prop where
  rows : db.punchEvent <+: after.punchEvent
  wellFormed : db.WellFormed → after.WellFormed
  stored : ∀ ev ∈ req.events, ev.Fits ∧ 0 < ev.seq ∧ after.hasEvent dev.id ev.seq = true
  bufferDepth : fitsInt4 req.bufferDepth = true
  ackAbove : dev.lastAckSeq ≤ response.ackThrough
  ackCovers : ∀ ev ∈ req.events, ev.seq ≤ response.ackThrough
  ackOrigin : response.ackThrough = dev.lastAckSeq ∨
    ∃ ev ∈ req.events, response.ackThrough = ev.seq
  device : after.device = db.device.map fun row =>
    if row.id = dev.id then
      { row with
        lastAckSeq := max row.lastAckSeq response.ackThrough
        lastBufferDepth := some req.bufferDepth }
    else row

theorem insertSyncBatch_invert {requestId : String}
    (done : insertSyncBatch db dev requestId events response = .ok after) :
    after.punchEvent = db.punchEvent ∧ after.device = db.device := by
  simp only [insertSyncBatch] at done
  split at done
  · obtain ⟨found, _, returned⟩ := except_bind_ok_iff.mp done
    cases returned
    exact ⟨rfl, rfl⟩
  · cases done
    exact ⟨rfl, rfl⟩

theorem insertSyncBatch_exists (db : Database) (dev : Device) {requestId : String}
    (read : (uuidIn requestId).isSome) :
    ∃ after, insertSyncBatch db dev requestId events response = .ok after := by
  obtain ⟨uuid, found⟩ := Option.isSome_iff_exists.mp read
  have parsed : ∃ uuid, requestUuid requestId = .ok uuid := by
    simp only [requestUuid]
    split
    · exact ⟨none, rfl⟩
    · exact ⟨some uuid, by rw [found]; rfl⟩
  obtain ⟨uuid, parsed⟩ := parsed
  simp only [insertSyncBatch]
  split
  · exact ⟨_, except_bind_ok_iff.mpr ⟨uuid, parsed, rfl⟩⟩
  · exact ⟨db, rfl⟩

theorem ingestBatch_effect
    (done : ingestBatch sortSlice db dev req now = .ok (after, response)) :
    BatchEffect db dev req after response := by
  simp only [ingestBatch, except_bind_ok_iff] at done
  obtain ⟨⟨middle, verdicts⟩, loop, logged, log, final, update, returned⟩ := done
  cases returned
  obtain ⟨fits, rfl⟩ := check_ok_iff.mp update
  obtain ⟨sameRows, sameDevice⟩ := insertSyncBatch_invert log
  have grows := ingestEvents_grows loop
  have perm := sortSlice.perm req.events
  have all : ∀ ev ∈ sortSlice.sort req.events, ev.seq ∈ verdicts.map (·.1) := by
    intro ev member
    rw [ingestEvents_verdicts loop]
    exact List.mem_map_of_mem member
  obtain ⟨above, covers, origin⟩ := ackLoop_spec all dev.lastAckSeq
  refine ⟨?_, ?_, ?_, fits, above, ?_, ?_, ?_⟩
  · simpa [sameRows] using grows.rows
  · intro valid
    have := grows.wellFormed valid
    exact ⟨by simpa [Database.keys, sameRows] using this.keys,
      by simpa [Database.uuids, sameRows] using this.uuids⟩
  · intro ev member
    have stored := ingestEvents_stored loop ev (perm.mem_iff.mpr member)
    simpa [Database.hasEvent, sameRows] using stored
  · exact fun ev member => covers ev (perm.mem_iff.mpr member)
  · rcases origin with kept | ⟨ev, member, same⟩
    · exact .inl kept
    · exact .inr ⟨ev, perm.mem_iff.mp member, same⟩
  · rw [sameDevice, grows.device]
    rfl

/-- A batch is stored and acknowledged whole exactly when each event's values
fit their columns with a positive `seq`, the buffer depth fits its column, and
no uuid would be stored twice. -/
theorem ingestBatch_stored_and_acked_iff (sortSlice : SortSlice) (db : Database) (dev : Device)
    (req : EventsRequest) (now : Time) (valid : db.WellFormed)
    (requestId : (uuidIn req.requestId).isSome) :
    (∃ after response, ingestBatch sortSlice db dev req now = .ok (after, response) ∧
        (∀ ev ∈ req.events, after.hasEvent dev.id ev.seq = true) ∧
        ∀ ev ∈ req.events, ev.seq ≤ response.ackThrough) ↔
      (∀ ev ∈ req.events, ev.Fits ∧ 0 < ev.seq) ∧ fitsInt4 req.bufferDepth = true ∧
        (db.uuids ++ newUuids (db.hasEvent dev.id) (sortSlice.sort req.events)).Nodup := by
  have perm := sortSlice.perm req.events
  constructor
  · intro given
    obtain ⟨after, response, done, -, -⟩ := given
    have effect := ingestBatch_effect done
    simp only [ingestBatch, except_bind_ok_iff] at done
    obtain ⟨⟨middle, verdicts⟩, loop, -⟩ := done
    obtain ⟨-, unique⟩ := (ingestEvents_exists_iff _ _ valid).mp ⟨middle, verdicts, loop⟩
    exact ⟨fun ev member => ⟨(effect.stored ev member).1, (effect.stored ev member).2.1⟩,
      effect.bufferDepth, unique⟩
  · intro given
    obtain ⟨fine, depth, unique⟩ := given
    obtain ⟨middle, verdicts, loop⟩ := (ingestEvents_exists_iff req.deviceUptimeMs now valid).mpr ⟨fun ev member => fine ev (perm.mem_iff.mp member), unique⟩
    have done : ∃ after response, ingestBatch sortSlice db dev req now = .ok (after, response) := by
      obtain ⟨logged, log⟩ := insertSyncBatch_exists middle dev requestId
      simp only [ingestBatch, except_bind_ok_iff]
      exact ⟨_, _, (middle, verdicts), loop, logged, log, _, check_ok_iff.mpr ⟨depth, rfl⟩, rfl⟩
    obtain ⟨after, response, done⟩ := done
    have effect := ingestBatch_effect done
    exact ⟨after, response, done, fun ev member => (effect.stored ev member).2.2, effect.ackCovers⟩

/-! A batch of two ordinary punches, and the same batch with the second uuid
missing.  The Go switch calls that event malformed and would store it as
rejected; the insert refuses it, and the first punch is lost with it. -/

def sortBySeq : SortSlice where
  sort := List.insertionSort fun first second => first.seq ≤ second.seq
  perm := List.perm_insertionSort _
  sorted := by
    have : Std.Total fun first second : PunchEvent => first.seq ≤ second.seq :=
      ⟨fun first second => Int.le_total first.seq second.seq⟩
    have : IsTrans PunchEvent fun first second => first.seq ≤ second.seq :=
      ⟨fun _ _ _ => Int.le_trans⟩
    exact List.pairwise_insertionSort _

def emptyDatabase : Database where
  device := []
  person := []
  credential := []
  deviceSlot := []
  punchEvent := []
  syncBatch := []
  nextEventId := 1

def sampleDevice : Device where
  id := 1
  orgId := 2
  mode := .bidirectional
  secrets := ∅
  lastAckSeq := 0

def samplePunch (seq : Int) (eventUuid : String) : PunchEvent where
  seq := seq
  eventUuid := eventUuid
  capturedAt := ⟨0, 0⟩
  capturedUptimeMs := 1000
  timeSource := "rtc_synced"
  credentialKind := "fingerprint"
  slotNo := some 7
  credentialRef := ""
  matchScore := some 90
  directionHint := "in"
  deviceMode := ""

def sampleBatch (secondUuid : String) : EventsRequest where
  requestId := "0a1b2c3d-0000-4000-8000-000000000001"
  deviceUptimeMs := 5000
  bufferDepth := 2
  events := [samplePunch 1 "0a1b2c3d-0000-4000-8000-000000000002", samplePunch 2 secondUuid]

theorem missing_uuid_fails_whole_batch :
    ingestBatch sortBySeq emptyDatabase sampleDevice (sampleBatch "") ⟨0, 0⟩ =
        .error (.invalidUuid "event_uuid") ∧
      ¬ ∃ after response,
        ingestBatch sortBySeq emptyDatabase sampleDevice (sampleBatch "") ⟨0, 0⟩ =
            .ok (after, response) ∧
          (∀ ev ∈ (sampleBatch "").events, after.hasEvent sampleDevice.id ev.seq = true) ∧
          ∀ ev ∈ (sampleBatch "").events, ev.seq ≤ response.ackThrough := by
  have failed : ingestBatch sortBySeq emptyDatabase sampleDevice (sampleBatch "") ⟨0, 0⟩ =
      .error (.invalidUuid "event_uuid") := rfl
  refine ⟨failed, ?_⟩
  intro given
  obtain ⟨after, response, done, -⟩ := given
  rw [failed] at done
  contradiction

theorem sampleBatch_stored_and_acked :
    ∃ after response, ingestBatch sortBySeq emptyDatabase sampleDevice
        (sampleBatch "0a1b2c3d-0000-4000-8000-000000000003") ⟨0, 0⟩ = .ok (after, response) ∧
      (∀ ev ∈ (sampleBatch "0a1b2c3d-0000-4000-8000-000000000003").events,
        after.hasEvent sampleDevice.id ev.seq = true) ∧
      ∀ ev ∈ (sampleBatch "0a1b2c3d-0000-4000-8000-000000000003").events,
        ev.seq ≤ response.ackThrough := by
  refine (ingestBatch_stored_and_acked_iff sortBySeq emptyDatabase sampleDevice _ ⟨0, 0⟩
    ⟨List.nodup_nil, List.nodup_nil⟩ (by decide)).mpr ⟨?_, by decide, by decide⟩
  simp only [sampleBatch, List.forall_mem_cons, List.not_mem_nil, false_implies, implies_true, and_true]
  exact ⟨⟨⟨by decide, by decide, by decide, by decide, by decide, by decide, by decide, by decide⟩,
    by decide⟩, ⟨by decide, by decide, by decide, by decide, by decide, by decide, by decide, by decide⟩,
    by decide⟩

end Presence.Gateway
