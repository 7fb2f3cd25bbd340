import Mathlib.Data.List.Induction
import Mathlib.Data.List.Nodup
import Presence.Data.Run
import Presence.Gateway.Ingest
import Presence.Go.Strconv

namespace Presence.Gateway

open Presence.Data Presence.Go Presence.Postgres

/-! # The command queue

`device_command`, and the statements of `store.go` that count its rows, hand them out
and record what became of them.  No statement of the gateway adds a row or takes one
away; operators do the first.  Each statement is its own transaction.  Which rows an
`UPDATE` may take depends on what other transactions have locked and on what its
snapshot shows, and rows of one `created_at` come in any order: these choices are
part of the input of a step.

The objects in `payload` and `result` are carried, never looked into.
-/

inductive CommandKind where
  | enrollCredential | deleteSlot | syncRoster | reboot | firmwareUpdate | setConfig
  | wipeTemplates | revoke
deriving DecidableEq, Repr

inductive CommandStatus where
  | queued | delivered | succeeded | failed | expired
deriving DecidableEq, Repr

def CommandKind.text : CommandKind → String
  | .enrollCredential => "enroll_credential"
  | .deleteSlot => "delete_slot"
  | .syncRoster => "sync_roster"
  | .reboot => "reboot"
  | .firmwareUpdate => "firmware_update"
  | .setConfig => "set_config"
  | .wipeTemplates => "wipe_templates"
  | .revoke => "revoke"

/-- A `jsonb` value: the column does not say that it is an object. -/
inductive Jsonb (Value : Type) where
  | object (value : Value)
  | other
deriving DecidableEq

structure CommandRow (Value : Type) where
  id : Uuid
  deviceId : Uuid
  kind : CommandKind
  payload : Jsonb Value
  status : CommandStatus
  attempts : Nat
  result : Option Value
  error : Option String
  expiresAt : Int
  createdAt : Int
  deliveredAt : Option Int
  completedAt : Option Int
deriving DecidableEq

structure Command (Value : Type) where
  id : String
  kind : String
  payload : Value
  expiresAt : Int

/-- The body of a result as decoded: an absent member is empty. -/
structure CommandResult (Value : Type) where
  status : String
  result : Option Value
  error : String

variable {Value : Type}

namespace CommandRow

/-- The condition that `Heartbeat` counts by and `PendingCommands` selects by. -/
def pending (row : CommandRow Value) (device : Uuid) (now : Int) : Bool :=
  decide (row.deviceId = device ∧ (row.status = .queued ∨ row.status = .delivered) ∧
    now < row.expiresAt)

def deliver (row : CommandRow Value) (now : Int) : CommandRow Value :=
  { row with status := .delivered, deliveredAt := some now, attempts := row.attempts + 1 }

/-- `rows.Scan`: a payload that is no object does not fit the map. -/
def scan (row : CommandRow Value) : Option (Command Value) :=
  match row.payload with
  | .object payload => some ⟨uuidOut row.id, row.kind.text, payload, row.expiresAt⟩
  | .other => none

def record (row : CommandRow Value) (res : CommandResult Value) (now : Int) : CommandRow Value :=
  { row with
    status := if res.status = "succeeded" then .succeeded else .failed
    result := res.result
    error := nullIfEmpty res.error
    completedAt := some now }

end CommandRow

def commandsPending (rows : List (CommandRow Value)) (device : Uuid) (now : Int) : Nat :=
  rows.countP (·.pending device now)

/-- `limit` of `GET /v1/device/commands`. -/
def commandLimit (query : String) : Nat :=
  match parseInt query with
  | some n => if 0 < n ∧ n ≤ 50 then n.toNat else 10
  | none => 10

/-- The pending rows that no other transaction holds. -/
def candidates (rows : List (CommandRow Value)) (device : Uuid) (now : Int) (skipped : List Uuid) :
    List (CommandRow Value) :=
  rows.filter fun row => row.pending device now && !skipped.contains row.id

/-- What `ORDER BY created_at LIMIT … FOR UPDATE SKIP LOCKED` may return. -/
structure Selects (rows : List (CommandRow Value)) (device : Uuid) (now : Int) (limit : Nat)
    (skipped ids : List Uuid) : Prop where
  nodup : ids.Nodup
  among : ∀ id ∈ ids, id ∈ (candidates rows device now skipped).map CommandRow.id
  length : ids.length = min limit (candidates rows device now skipped).length
  oldest : ∀ taken ∈ candidates rows device now skipped, taken.id ∈ ids →
    ∀ left ∈ candidates rows device now skipped, left.id ∉ ids → taken.createdAt ≤ left.createdAt

/-- `Selects` as it is checked. -/
def selects (rows : List (CommandRow Value)) (device : Uuid) (now : Int) (limit : Nat)
    (skipped ids : List Uuid) : Bool :=
  let among := candidates rows device now skipped
  decide ids.Nodup && ids.all (fun id => (among.map CommandRow.id).contains id) &&
    ids.length == min limit among.length &&
    among.all fun taken => !ids.contains taken.id || among.all fun left =>
      ids.contains left.id || decide (taken.createdAt ≤ left.createdAt)

theorem selects_iff {rows : List (CommandRow Value)} {device : Uuid} {now : Int} {limit : Nat}
    {skipped ids : List Uuid} : selects rows device now limit skipped ids = true ↔
      Selects rows device now limit skipped ids := by
  simp only [selects, Bool.and_eq_true, decide_eq_true_eq, List.all_eq_true, List.contains_iff_mem,
    beq_iff_eq, Bool.or_eq_true, Bool.not_eq_true', Bool.eq_false_iff, ne_eq]
  constructor
  · intro ⟨⟨⟨nodup, among⟩, length⟩, oldest⟩
    exact ⟨nodup, among, length, fun taken candidate chosen other waiting unchosen =>
      ((oldest taken candidate).resolve_left (absurd chosen) other waiting).resolve_left unchosen⟩
  · intro chosen
    refine ⟨⟨⟨chosen.nodup, chosen.among⟩, chosen.length⟩, fun taken candidate => ?_⟩
    by_cases picked : taken.id ∈ ids
    · refine Or.inr fun other waiting => ?_
      by_cases unchosen : other.id ∈ ids
      · exact Or.inl unchosen
      · exact Or.inr (chosen.oldest taken candidate picked other waiting unchosen)
    · exact Or.inl picked

instance (rows : List (CommandRow Value)) (device : Uuid) (now : Int) (limit : Nat)
    (skipped ids : List Uuid) : Decidable (Selects rows device now limit skipped ids) :=
  decidable_of_iff _ selects_iff

/-- The rows after `PendingCommands`, which keeps its `UPDATE` even where a payload then
does not scan. -/
def deliverAll (rows : List (CommandRow Value)) (ids : List Uuid) (now : Int) :
    List (CommandRow Value) :=
  rows.map fun row => if ids.contains row.id then row.deliver now else row

def pendingCommands (rows : List (CommandRow Value)) (ids : List Uuid) :
    Option (List (Command Value)) :=
  (rows.filter (ids.contains ·.id)).mapM CommandRow.scan

def recordCommandResult (rows : List (CommandRow Value)) (device : Uuid) (commandId : String)
    (res : CommandResult Value) (now : Int) : Except Error (Uuid × List (CommandRow Value)) := do
  let id ← cast (.invalidUuid "id") (uuidIn commandId)
  let () ← check (.invalidText "error") (validText res.error) ()
  return (id, rows.map fun row =>
    if row.id = id ∧ row.deviceId = device then row.record res now else row)

/-! ## Runs -/

/-- What the queue did, as its callers saw it. -/
inductive CommandEvent where
  | handed (device : Uuid) (now : Int) (ids : List Uuid)
  | reported (device id : Uuid) (succeeded : Bool) (now : Int)
deriving DecidableEq, Repr

structure CommandQueue (Value : Type) where
  rows : List (CommandRow Value)
  log : List CommandEvent
deriving DecidableEq

inductive CommandInput (Value : Type) where
  | insert (row : CommandRow Value)
  | poll (device : Uuid) (limit : String) (now : Int) (skipped ids : List Uuid)
  | report (device : Uuid) (commandId : String) (res : CommandResult Value) (now : Int)

/-- A row as its columns' defaults leave it. -/
structure CommandRow.Fresh (row : CommandRow Value) : Prop where
  status : row.status = .queued
  attempts : row.attempts = 0
  deliveredAt : row.deliveredAt = none
  completedAt : row.completedAt = none

instance (row : CommandRow Value) : Decidable row.Fresh :=
  decidable_of_iff (row.status = .queued ∧ row.attempts = 0 ∧ row.deliveredAt = none ∧
      row.completedAt = none)
    ⟨fun ⟨status, attempts, delivered, completed⟩ => ⟨status, attempts, delivered, completed⟩,
      fun fresh => ⟨fresh.status, fresh.attempts, fresh.deliveredAt, fresh.completedAt⟩⟩

namespace CommandQueue

def empty : CommandQueue Value := ⟨[], []⟩

def step (queue : CommandQueue Value) : CommandInput Value → Option (CommandQueue Value)
  | .insert row =>
      if row.Fresh ∧ queue.rows.all (·.id != row.id) then
        some { queue with rows := queue.rows ++ [row] }
      else none
  | .poll device limit now skipped ids =>
      if Selects queue.rows device now (commandLimit limit) skipped ids then
        some ⟨deliverAll queue.rows ids now, queue.log ++ [.handed device now ids]⟩
      else none
  | .report device commandId res now =>
      match recordCommandResult queue.rows device commandId res now with
      | .error _ => some queue
      | .ok (id, rows) =>
          -- an `UPDATE` that finds no row is no error, and leaves no trace
          if queue.rows.any fun row => row.id = id && row.deviceId = device then
            some ⟨rows, queue.log ++ [.reported device id (res.status = "succeeded") now]⟩
          else some { queue with rows }

/-! ## What a step can do -/

inductive Moved (queue : CommandQueue Value) : CommandInput Value → CommandQueue Value → Prop
  | inserted (row : CommandRow Value) (fresh : row.Fresh)
      (unused : row.id ∉ queue.rows.map CommandRow.id) :
      Moved queue (.insert row) { queue with rows := queue.rows ++ [row] }
  | polled (device : Uuid) (limit : String) (now : Int) (skipped ids : List Uuid)
      (selects : Selects queue.rows device now (commandLimit limit) skipped ids) :
      Moved queue (.poll device limit now skipped ids)
        ⟨deliverAll queue.rows ids now, queue.log ++ [.handed device now ids]⟩
  | reported (device id : Uuid) (commandId : String) (res : CommandResult Value) (now : Int)
      (named : ∃ row ∈ queue.rows, row.id = id ∧ row.deviceId = device) :
      Moved queue (.report device commandId res now)
        ⟨queue.rows.map fun row =>
            if row.id = id ∧ row.deviceId = device then row.record res now else row,
          queue.log ++ [.reported device id (res.status = "succeeded") now]⟩
  | refused (device : Uuid) (commandId : String) (res : CommandResult Value) (now : Int) :
      Moved queue (.report device commandId res now) queue

theorem step_moved {queue next : CommandQueue Value} {input : CommandInput Value}
    (taken : queue.step input = some next) : Moved queue input next := by
  cases input with
  | insert row =>
      simp only [step, Option.ite_none_right_eq_some, Option.some.injEq] at taken
      obtain ⟨⟨fresh, unused⟩, rfl⟩ := taken
      exact .inserted row fresh (by simpa using unused)
  | poll device limit now skipped ids =>
      simp only [step, Option.ite_none_right_eq_some, Option.some.injEq] at taken
      obtain ⟨selects, rfl⟩ := taken
      exact .polled device limit now skipped ids selects
  | report device commandId res now =>
      cases recorded : recordCommandResult queue.rows device commandId res now with
      | error error =>
          simp only [step, recorded, Option.some.injEq] at taken
          cases taken
          exact .refused device commandId res now
      | ok returned =>
          obtain ⟨id, -, checked⟩ := except_bind_ok_iff.mp recorded
          obtain ⟨⟨⟩, -, same⟩ := except_bind_ok_iff.mp checked
          cases same
          simp only [step, recorded] at taken
          by_cases named : ∃ row ∈ queue.rows, row.id = id ∧ row.deviceId = device
          · rw [if_pos (by simpa using named)] at taken
            cases taken
            exact .reported device id commandId res now named
          · rw [if_neg (by simpa using named)] at taken
            have same : (queue.rows.map fun row =>
                if row.id = id ∧ row.deviceId = device then row.record res now else row) =
                queue.rows :=
              List.map_congr_left (fun row member => if_neg fun both => named ⟨row, member, both⟩)
                |>.trans (List.map_id _)
            rw [same] at taken
            cases taken
            exact .refused device commandId res now

end CommandQueue

/-! ## A row says what the log says -/

section Accounts

variable {log : List CommandEvent} {device id : Uuid} {now : Int} {ids : List Uuid}

/-- When a command was handed out, in order. -/
def handings (log : List CommandEvent) (id : Uuid) : List Int :=
  log.filterMap fun
    | .handed _ now ids => if ids.contains id then some now else none
    | .reported .. => none

/-- What a device reported on a command, and when. -/
def reports (log : List CommandEvent) (device id : Uuid) : List (Bool × Int) :=
  log.filterMap fun
    | .handed .. => none
    | .reported owner named succeeded now =>
        if id = named ∧ device = owner then some (succeeded, now) else none

theorem handings_handed (log : List CommandEvent) (id device : Uuid) (now : Int) (ids : List Uuid) :
    handings (log ++ [.handed device now ids]) id =
      handings log id ++ if id ∈ ids then [now] else [] := by
  by_cases taken : id ∈ ids <;> simp [handings, taken]

@[simp] theorem handings_reported (log : List CommandEvent) (id device other : Uuid)
    (succeeded : Bool) (now : Int) :
    handings (log ++ [.reported device other succeeded now]) id = handings log id := by
  simp [handings]

@[simp] theorem reports_handed (log : List CommandEvent) (device id other : Uuid) (now : Int)
    (ids : List Uuid) :
    reports (log ++ [.handed other now ids]) device id = reports log device id := by
  simp [reports]

theorem reports_reported (log : List CommandEvent) (device id owner named : Uuid)
    (succeeded : Bool) (now : Int) :
    reports (log ++ [.reported owner named succeeded now]) device id =
      reports log device id ++ if id = named ∧ device = owner then [(succeeded, now)] else [] := by
  by_cases meant : id = named ∧ device = owner <;> simp [reports, meant]

theorem mem_reports {succeeded : Bool} {moment : Int} :
    (succeeded, moment) ∈ reports log device id ↔ .reported device id succeeded moment ∈ log := by
  constructor
  · intro reported
    obtain ⟨event, member, taken⟩ := List.mem_filterMap.mp reported
    cases event with
    | handed => cases taken
    | reported owner named ok now =>
        obtain ⟨meant, same⟩ := Option.ite_none_right_eq_some.mp taken
        cases same
        exact meant.1 ▸ meant.2 ▸ member
  · exact fun member => List.mem_filterMap.mpr ⟨_, member, if_pos ⟨rfl, rfl⟩⟩

namespace CommandRow

def statusOf : Option (Bool × Int) → List Int → CommandStatus
  | some (true, _), _ => .succeeded
  | some (false, _), _ => .failed
  | none, [] => .queued
  | none, _ :: _ => .delivered

structure Tells (row : CommandRow Value) (log : List CommandEvent) : Prop where
  status : row.status = statusOf (reports log row.deviceId row.id).getLast? (handings log row.id)
  attempts : row.attempts = (handings log row.id).length
  deliveredAt : row.deliveredAt = (handings log row.id).getLast?
  completedAt : row.completedAt = (reports log row.deviceId row.id).getLast?.map Prod.snd

variable {row : CommandRow Value}

/-- The columns that nothing writes once the row stands. -/
structure SameOrder (row other : CommandRow Value) : Prop where
  id : other.id = row.id
  deviceId : other.deviceId = row.deviceId
  kind : other.kind = row.kind
  payload : other.payload = row.payload
  expiresAt : other.expiresAt = row.expiresAt
  createdAt : other.createdAt = row.createdAt

theorem SameOrder.refl (row : CommandRow Value) : row.SameOrder row :=
  ⟨rfl, rfl, rfl, rfl, rfl, rfl⟩

theorem SameOrder.trans {first second third : CommandRow Value} (left : first.SameOrder second)
    (right : second.SameOrder third) : first.SameOrder third :=
  ⟨right.id.trans left.id, right.deviceId.trans left.deviceId, right.kind.trans left.kind,
    right.payload.trans left.payload, right.expiresAt.trans left.expiresAt,
    right.createdAt.trans left.createdAt⟩

/-- A row with a report is in neither of the statuses that a poll takes. -/
theorem Tells.unreported (tells : row.Tells log)
    (pending : row.status = .queued ∨ row.status = .delivered) :
    reports log row.deviceId row.id = [] := by
  rw [tells.status] at pending
  cases told : reports log row.deviceId row.id using List.reverseRecOn with
  | nil => rfl
  | append_singleton earlier last =>
      obtain ⟨succeeded, moment⟩ := last
      cases succeeded <;> simp [told, statusOf] at pending

theorem tells_fresh (fresh : row.Fresh) (unhanded : handings log row.id = [])
    (unreported : reports log row.deviceId row.id = []) : row.Tells log where
  status := by rw [fresh.status, unhanded, unreported]; rfl
  attempts := by rw [fresh.attempts, unhanded]; rfl
  deliveredAt := by rw [fresh.deliveredAt, unhanded]; rfl
  completedAt := by rw [fresh.completedAt, unreported]; rfl

theorem Tells.deliver (tells : row.Tells log) (unreported : reports log row.deviceId row.id = [])
    (taken : row.id ∈ ids) : (row.deliver now).Tells (log ++ [.handed device now ids]) where
  status := by
    simp only [CommandRow.deliver, reports_handed, handings_handed, if_pos taken, unreported]
    cases handings log row.id <;> rfl
  attempts := by
    simp [CommandRow.deliver, handings_handed, taken, tells.attempts]
  deliveredAt := by
    simp [CommandRow.deliver, handings_handed, taken]
  completedAt := by
    simp only [CommandRow.deliver, reports_handed, tells.completedAt]

theorem Tells.passed (tells : row.Tells log) (left : row.id ∉ ids) :
    row.Tells (log ++ [.handed device now ids]) := by
  have same : handings (log ++ [.handed device now ids]) row.id = handings log row.id := by
    rw [handings_handed, if_neg left, List.append_nil]
  constructor
  · rw [same, reports_handed, tells.status]
  · rw [same, tells.attempts]
  · rw [same, tells.deliveredAt]
  · rw [reports_handed, tells.completedAt]

theorem Tells.record (tells : row.Tells log) (res : CommandResult Value) :
    (row.record res now).Tells
      (log ++ [.reported row.deviceId row.id (res.status = "succeeded") now]) where
  status := by
    by_cases succeeded : res.status = "succeeded" <;>
      simp [CommandRow.record, reports_reported, statusOf, succeeded]
  attempts := by
    simp only [CommandRow.record, handings_reported, tells.attempts]
  deliveredAt := by
    simp only [CommandRow.record, handings_reported, tells.deliveredAt]
  completedAt := by
    simp [CommandRow.record, reports_reported]

theorem Tells.unmeant (tells : row.Tells log) (succeeded : Bool)
    (other : ¬ (row.id = id ∧ row.deviceId = device)) :
    row.Tells (log ++ [.reported device id succeeded now]) := by
  have same : reports (log ++ [.reported device id succeeded now]) row.deviceId row.id =
      reports log row.deviceId row.id := by
    rw [reports_reported, if_neg other, List.append_nil]
  constructor
  · rw [same, handings_reported, tells.status]
  · rw [handings_reported, tells.attempts]
  · rw [handings_reported, tells.deliveredAt]
  · rw [same, tells.completedAt]

end CommandRow

end Accounts

namespace CommandEvent

/-- The commands an event is about. -/
def ids : CommandEvent → List Uuid
  | .handed _ _ ids => ids
  | .reported _ id _ _ => [id]

/-- What was handed out was at most fifty rows of the device that asked, none expired. -/
def Proper (rows : List (CommandRow Value)) : CommandEvent → Prop
  | .handed device now ids => ids.length ≤ 50 ∧ ids.Nodup ∧
      ∀ id ∈ ids, ∃ row ∈ rows, row.id = id ∧ row.deviceId = device ∧ now < row.expiresAt
  | .reported device id _ _ => ∃ row ∈ rows, row.id = id ∧ row.deviceId = device

/-- A command whose device reported on it is not handed out afterwards. -/
def Closes : CommandEvent → CommandEvent → Prop
  | .reported _ id _ _, .handed _ _ ids => id ∉ ids
  | _, _ => True

end CommandEvent

namespace CommandQueue

variable {queue next final : CommandQueue Value} {input : CommandInput Value}

structure Accounted (queue : CommandQueue Value) : Prop where
  distinct : (queue.rows.map CommandRow.id).Nodup
  tells : ∀ row ∈ queue.rows, row.Tells queue.log
  proper : ∀ event ∈ queue.log, event.Proper queue.rows
  closed : queue.log.Pairwise CommandEvent.Closes

/-- Every row is still there, as it was ordered. -/
def Keeps (queue next : CommandQueue Value) : Prop :=
  ∀ row ∈ queue.rows, ∃ kept ∈ next.rows, row.SameOrder kept

theorem Keeps.refl (queue : CommandQueue Value) : queue.Keeps queue :=
  fun row member => ⟨row, member, .refl row⟩

theorem Keeps.trans {first second third : CommandQueue Value} (left : first.Keeps second)
    (right : second.Keeps third) : first.Keeps third := by
  intro row member
  obtain ⟨middle, here, early⟩ := left row member
  obtain ⟨kept, there, late⟩ := right middle here
  exact ⟨kept, there, early.trans late⟩

theorem keeps_of_map (change : CommandRow Value → CommandRow Value) (log : List CommandEvent)
    (same : ∀ row : CommandRow Value, row.SameOrder (change row)) :
    queue.Keeps ⟨queue.rows.map change, log⟩ :=
  fun row member => ⟨change row, List.mem_map_of_mem member, same row⟩

theorem sameOrder_deliver (row : CommandRow Value) (ids : List Uuid) (now : Int) :
    row.SameOrder (if ids.contains row.id then row.deliver now else row) := by
  split
  · exact ⟨rfl, rfl, rfl, rfl, rfl, rfl⟩
  · exact .refl row

theorem sameOrder_record (row : CommandRow Value) (device id : Uuid) (res : CommandResult Value)
    (now : Int) :
    row.SameOrder (if row.id = id ∧ row.deviceId = device then row.record res now else row) := by
  split
  · exact ⟨rfl, rfl, rfl, rfl, rfl, rfl⟩
  · exact .refl row

theorem step_keeps (taken : queue.step input = some next) : queue.Keeps next := by
  cases step_moved taken with
  | inserted row fresh unused =>
      exact fun old member => ⟨old, List.mem_append_left _ member, .refl old⟩
  | polled device limit now skipped ids selects =>
      exact keeps_of_map _ _ fun row => sameOrder_deliver row ids now
  | reported device id commandId res now named =>
      exact keeps_of_map _ _ fun row => sameOrder_record row device id res now
  | refused device commandId res now => exact .refl queue

theorem Keeps.proper {event : CommandEvent} (keeps : queue.Keeps next)
    (proper : event.Proper queue.rows) : event.Proper next.rows := by
  cases event with
  | handed device now ids =>
      obtain ⟨few, nodup, own⟩ := proper
      refine ⟨few, nodup, fun id member => ?_⟩
      obtain ⟨row, here, named, owner, live⟩ := own id member
      obtain ⟨kept, there, same⟩ := keeps row here
      exact ⟨kept, there, same.id.trans named, same.deviceId.trans owner, by rwa [same.expiresAt]⟩
  | reported device id succeeded now =>
      obtain ⟨row, here, named, owner⟩ := proper
      obtain ⟨kept, there, same⟩ := keeps row here
      exact ⟨kept, there, same.id.trans named, same.deviceId.trans owner⟩

theorem nodup_of_sameOrder (change : CommandRow Value → CommandRow Value)
    (same : ∀ row : CommandRow Value, row.SameOrder (change row)) {rows : List (CommandRow Value)}
    (distinct : (rows.map CommandRow.id).Nodup) : ((rows.map change).map CommandRow.id).Nodup := by
  rw [List.map_map]
  exact (List.map_congr_left fun row _ => (same row).id) ▸ distinct

theorem nodup_deliverAll {rows : List (CommandRow Value)} (ids : List Uuid) (now : Int)
    (distinct : (rows.map CommandRow.id).Nodup) :
    ((deliverAll rows ids now).map CommandRow.id).Nodup :=
  nodup_of_sameOrder _ (fun row => sameOrder_deliver row ids now) distinct

theorem nodup_record {rows : List (CommandRow Value)} (device id : Uuid)
    (res : CommandResult Value) (now : Int) (distinct : (rows.map CommandRow.id).Nodup) :
    ((rows.map fun row => if row.id = id ∧ row.deviceId = device then row.record res now
      else row).map CommandRow.id).Nodup :=
  nodup_of_sameOrder _ (fun row => sameOrder_record row device id res now) distinct

theorem nodup_recordCommandResult {rows after : List (CommandRow Value)} {device id : Uuid}
    {commandId : String} {res : CommandResult Value} {now : Int}
    (recorded : recordCommandResult rows device commandId res now = .ok (id, after))
    (distinct : (rows.map CommandRow.id).Nodup) : (after.map CommandRow.id).Nodup := by
  obtain ⟨uuid, -, checked⟩ := except_bind_ok_iff.mp recorded
  obtain ⟨⟨⟩, -, returned⟩ := except_bind_ok_iff.mp checked
  cases returned
  exact nodup_record device id res now distinct

theorem commandLimit_le (query : String) : commandLimit query ≤ 50 := by
  simp only [commandLimit]
  split
  · split <;> omega
  · decide

/-- No event of the log is about an unknown row. -/
theorem Accounted.unknown (accounted : queue.Accounted) {id : Uuid}
    (unused : id ∉ queue.rows.map CommandRow.id) : ∀ event ∈ queue.log, id ∉ event.ids := by
  intro event member mentioned
  cases event with
  | handed device now ids =>
      obtain ⟨-, -, own⟩ := accounted.proper _ member
      obtain ⟨row, here, rfl, -⟩ := own id mentioned
      exact unused (List.mem_map_of_mem here)
  | reported device other succeeded now =>
      obtain ⟨row, here, rfl, -⟩ := accounted.proper _ member
      cases List.mem_singleton.mp mentioned
      exact unused (List.mem_map_of_mem here)

theorem Accounted.insert (accounted : queue.Accounted) {row : CommandRow Value} (fresh : row.Fresh)
    (unused : row.id ∉ queue.rows.map CommandRow.id) :
    Accounted { queue with rows := queue.rows ++ [row] } where
  distinct := by
    simpa [List.nodup_append] using ⟨accounted.distinct, by simpa using unused⟩
  tells := by
    intro other member
    obtain old | same := List.mem_append.mp member
    · exact accounted.tells other old
    · cases List.mem_singleton.mp same
      have unknown := accounted.unknown unused
      have unhanded : handings queue.log row.id = [] := by
        refine List.filterMap_eq_nil_iff.mpr fun event member => ?_
        cases event with
        | handed device now ids => exact if_neg (mt List.contains_iff_mem.mp (unknown _ member))
        | reported => rfl
      have unreported : reports queue.log row.deviceId row.id = [] := by
        refine List.filterMap_eq_nil_iff.mpr fun event member => ?_
        cases event with
        | handed => rfl
        | reported device id succeeded now =>
            exact if_neg fun both => unknown _ member (by simp [CommandEvent.ids, both.1])
      exact CommandRow.tells_fresh fresh unhanded unreported
  proper := fun event member =>
    Keeps.proper (fun old here => ⟨old, List.mem_append_left _ here, .refl old⟩)
      (accounted.proper event member)
  closed := accounted.closed

theorem pending_iff {row : CommandRow Value} {device : Uuid} {now : Int} :
    row.pending device now = true ↔
      row.deviceId = device ∧ (row.status = .queued ∨ row.status = .delivered) ∧
        now < row.expiresAt := by
  simp [CommandRow.pending]

theorem mem_candidates {rows : List (CommandRow Value)} {device : Uuid} {now : Int}
    {skipped : List Uuid} {row : CommandRow Value} :
    row ∈ candidates rows device now skipped ↔
      row ∈ rows ∧ row.pending device now = true ∧ row.id ∉ skipped := by
  simp [candidates]

theorem Accounted.of_id (accounted : queue.Accounted) {row other : CommandRow Value}
    (here : row ∈ queue.rows) (there : other ∈ queue.rows) (same : row.id = other.id) :
    row = other :=
  List.inj_on_of_nodup_map accounted.distinct here there same

/-- What a poll takes is a pending row, and has no report. -/
theorem Accounted.selected (accounted : queue.Accounted) {device : Uuid} {now : Int} {limit : Nat}
    {skipped ids : List Uuid} (selects : Selects queue.rows device now limit skipped ids)
    {row : CommandRow Value} (here : row ∈ queue.rows) (taken : row.id ∈ ids) :
    row.pending device now = true ∧ reports queue.log row.deviceId row.id = [] := by
  obtain ⟨other, among, same⟩ := List.mem_map.mp (selects.among row.id taken)
  obtain ⟨there, pending, -⟩ := mem_candidates.mp among
  cases accounted.of_id there here same
  exact ⟨pending, (accounted.tells row here).unreported (pending_iff.mp pending).2.1⟩

theorem Accounted.poll (accounted : queue.Accounted) {device : Uuid} {limit : String} {now : Int}
    {skipped ids : List Uuid}
    (selects : Selects queue.rows device now (commandLimit limit) skipped ids) :
    Accounted ⟨deliverAll queue.rows ids now, queue.log ++ [.handed device now ids]⟩ where
  distinct := nodup_deliverAll ids now accounted.distinct
  tells := by
    intro row member
    obtain ⟨old, here, rfl⟩ := List.mem_map.mp member
    have tells := accounted.tells old here
    by_cases taken : old.id ∈ ids
    · rw [if_pos (List.contains_iff_mem.mpr taken)]
      exact tells.deliver (accounted.selected selects here taken).2 taken
    · rw [if_neg (mt List.contains_iff_mem.mp taken)]
      exact tells.passed taken
  proper := by
    have keeps : queue.Keeps
        ⟨deliverAll queue.rows ids now, queue.log ++ [.handed device now ids]⟩ :=
      keeps_of_map _ _ fun row => sameOrder_deliver row ids now
    intro event member
    obtain old | same := List.mem_append.mp member
    · exact keeps.proper (accounted.proper event old)
    · cases List.mem_singleton.mp same
      refine keeps.proper ⟨?_, selects.nodup, fun id taken => ?_⟩
      · exact selects.length ▸ Nat.le_trans (Nat.min_le_left _ _) (commandLimit_le limit)
      · obtain ⟨row, among, same⟩ := List.mem_map.mp (selects.among id taken)
        obtain ⟨here, pending, -⟩ := mem_candidates.mp among
        obtain ⟨owner, -, live⟩ := pending_iff.mp pending
        exact ⟨row, here, same, owner, live⟩
  closed := by
    refine List.pairwise_append.mpr ⟨accounted.closed, List.pairwise_singleton _ _, ?_⟩
    intro event member other same
    cases List.mem_singleton.mp same
    cases event with
    | handed => trivial
    | reported owner id succeeded moment =>
        intro taken
        obtain ⟨row, here, rfl, rfl⟩ := accounted.proper _ member
        obtain ⟨-, unreported⟩ := accounted.selected selects here taken
        have reported := mem_reports.mpr member
        simp [unreported] at reported

theorem Accounted.report (accounted : queue.Accounted) {device id : Uuid}
    {res : CommandResult Value} {now : Int}
    (named : ∃ row ∈ queue.rows, row.id = id ∧ row.deviceId = device) :
    Accounted ⟨queue.rows.map fun row =>
        if row.id = id ∧ row.deviceId = device then row.record res now else row,
      queue.log ++ [.reported device id (res.status = "succeeded") now]⟩ where
  distinct := nodup_record device id res now accounted.distinct
  tells := by
    intro row member
    obtain ⟨old, here, rfl⟩ := List.mem_map.mp member
    have tells := accounted.tells old here
    by_cases named : old.id = id ∧ old.deviceId = device
    · rw [if_pos named]
      obtain ⟨rfl, rfl⟩ := named
      exact tells.record res
    · rw [if_neg named]
      exact tells.unmeant _ named
  proper := by
    have keeps : queue.Keeps ⟨queue.rows.map fun row =>
        if row.id = id ∧ row.deviceId = device then row.record res now else row,
        queue.log ++ [.reported device id (res.status = "succeeded") now]⟩ :=
      keeps_of_map _ _ fun row => sameOrder_record row device id res now
    intro event member
    obtain old | same := List.mem_append.mp member
    · exact keeps.proper (accounted.proper event old)
    · cases List.mem_singleton.mp same
      obtain ⟨row, here, meant⟩ := named
      exact keeps.proper ⟨row, here, meant⟩
  closed := by
    refine List.pairwise_append.mpr ⟨accounted.closed, List.pairwise_singleton _ _, ?_⟩
    intro event member other same
    cases List.mem_singleton.mp same
    cases event <;> trivial

theorem Accounted.step (accounted : queue.Accounted) (taken : queue.step input = some next) :
    next.Accounted := by
  cases step_moved taken with
  | inserted row fresh unused => exact accounted.insert fresh unused
  | polled device limit now skipped ids selects => exact accounted.poll selects
  | reported device id commandId res now named => exact accounted.report named
  | refused device commandId res now => exact accounted

theorem accounted_empty : (empty : CommandQueue Value).Accounted where
  distinct := List.nodup_nil
  tells := by simp [empty]
  proper := by simp [empty]
  closed := List.Pairwise.nil

theorem run_accounted {inputs : List (CommandInput Value)}
    (ran : run step empty inputs = some final) : final.Accounted :=
  run_invariant (fun _ _ _ accounted taken => accounted.step taken) accounted_empty ran

theorem run_keeps {inputs : List (CommandInput Value)}
    (ran : run step queue inputs = some final) : queue.Keeps final := by
  have stepped : ∀ (state : CommandQueue Value) input next, True →
      step state input = some next → True ∧ state.Keeps next :=
    fun _ _ _ _ taken => ⟨trivial, step_keeps taken⟩
  exact run_relation Keeps Keeps.refl Keeps.trans stepped trivial ran

/-- Over any interleaving of the operators, the polls and the results: every row says
what was done with it, no command leaves its device or its lifetime, one that was
reported on is not handed out again, and none is lost or altered. -/
theorem commands_accounted {inputs : List (CommandInput Value)}
    (ran : run step empty inputs = some final) :
    final.Accounted ∧ ∀ row, .insert row ∈ inputs → ∃ kept ∈ final.rows, row.SameOrder kept := by
  constructor
  · exact run_accounted ran
  · intro row ordered
    obtain ⟨earlier, later, split⟩ := List.append_of_mem ordered
    rw [split] at ran
    obtain ⟨before, -, rest⟩ := run_append_invert ran
    obtain ⟨after, taken, remaining⟩ := run_cons_invert rest
    have stands : row ∈ after.rows := by
      cases step_moved taken with
      | inserted => exact List.mem_append_right _ (List.mem_singleton_self row)
    exact run_keeps remaining row stands

/-! ## A command waits its turn

A poll that passes a command over hands out as many older ones as it may, and a device
that answers what it is given does not get these again.
-/

/-- Whether another command may still be taken before this one. -/
def precedes (row other : CommandRow Value) : Bool :=
  decide (other.deviceId = row.deviceId ∧ other.status = .queued ∧ other.id ≠ row.id ∧
    other.createdAt ≤ row.createdAt)

def ahead (queue : CommandQueue Value) (row : CommandRow Value) : Nat :=
  queue.rows.countP (precedes row)

/-- The device polls for at least `limit` commands, before the row expires and while no
other transaction holds it, and has by then reported on all it was handed; what is
ordered for it later is created later. -/
def Attentive (row : CommandRow Value) (limit : Nat) (queue : CommandQueue Value) :
    CommandInput Value → Prop
  | .insert other => other.deviceId = row.deviceId → row.createdAt < other.createdAt
  | .poll device query now skipped _ => device = row.deviceId →
      limit ≤ commandLimit query ∧ now < row.expiresAt ∧ row.id ∉ skipped ∧
        ∀ other ∈ queue.rows, other.deviceId = device → other.status ≠ .delivered
  | .report .. => True

def polls (device : Uuid) (inputs : List (CommandInput Value)) : Nat :=
  inputs.countP fun
    | .poll other .. => decide (other = device)
    | _ => false

/-- Handed out, or reported on without having been. -/
def Reached (queue : CommandQueue Value) (row : CommandRow Value) : Prop :=
  handings queue.log row.id ≠ [] ∨ reports queue.log row.deviceId row.id ≠ []

section Turn

variable {row : CommandRow Value} {limit : Nat}

theorem reached_of_step (taken : queue.step input = some next) (reached : queue.Reached row) :
    next.Reached row := by
  cases step_moved taken with
  | inserted => exact reached
  | polled device limit now skipped ids selects =>
      refine reached.imp (fun handed => ?_) (fun reported => ?_)
      · simp [handings_handed, handed]
      · simpa using reported
  | reported device id commandId res now named =>
      refine reached.imp (fun handed => ?_) (fun reported => ?_)
      · simpa using handed
      · simp [reports_reported, reported]
  | refused => exact reached

/-- A row not yet reached is queued. -/
theorem Accounted.queued (accounted : queue.Accounted) {kept : CommandRow Value}
    (here : kept ∈ queue.rows) (same : row.SameOrder kept) (unreached : ¬ queue.Reached row) :
    kept.status = .queued := by
  obtain ⟨unhanded, unreported⟩ := not_or.mp unreached
  have tells := accounted.tells kept here
  rw [tells.status, same.deviceId, same.id, not_not.mp unhanded, not_not.mp unreported]
  rfl

theorem ahead_insert {other : CommandRow Value}
    (later : other.deviceId = row.deviceId → row.createdAt < other.createdAt) :
    ahead { queue with rows := queue.rows ++ [other] } row = queue.ahead row := by
  have behind : precedes row other = false :=
    decide_eq_false fun ⟨owner, _, _, earlier⟩ => absurd (later owner) (by omega)
  simp [ahead, List.countP_append, behind]

theorem precedes_deliver (row other : CommandRow Value) (now : Int) :
    precedes row (other.deliver now) = false :=
  decide_eq_false fun ⟨_, delivered, _⟩ => CommandStatus.noConfusion delivered

theorem precedes_record (row other : CommandRow Value) (res : CommandResult Value) (now : Int) :
    precedes row (other.record res now) = false := by
  by_cases succeeded : res.status = "succeeded" <;> simp [precedes, CommandRow.record, succeeded]

theorem ahead_report (queue : CommandQueue Value) (row : CommandRow Value) (device id : Uuid)
    (res : CommandResult Value) (now : Int)
    (log : List CommandEvent) :
    ahead ⟨queue.rows.map fun other =>
        if other.id = id ∧ other.deviceId = device then other.record res now else other, log⟩ row ≤
      queue.ahead row := by
  simp only [ahead, List.countP_map]
  refine List.countP_mono_left fun other _ counted => ?_
  simp only [Function.comp_apply] at counted
  split at counted
  · simp [precedes_record] at counted
  · exact counted

/-- A poll takes what it hands out from the front. -/
theorem ahead_poll (row : CommandRow Value) (rows : List (CommandRow Value)) (ids : List Uuid)
    (now : Int) : (deliverAll rows ids now).countP (precedes row) +
        rows.countP (fun other => precedes row other && decide (other.id ∈ ids)) =
      rows.countP (precedes row) := by
  induction rows with
  | nil => rfl
  | cons other rest ih =>
      have apart : deliverAll (other :: rest) ids now =
          (if ids.contains other.id then other.deliver now else other) ::
            deliverAll rest ids now := rfl
      rw [apart]
      simp only [List.countP_cons]
      by_cases taken : other.id ∈ ids
      · simp [taken, precedes_deliver]
        omega
      · simp [taken]
        omega

/-- A poll that passes a waiting command over takes its fill of older ones. -/
theorem passedOver {device : Uuid} {count : Nat} {now : Int}
    {skipped ids : List Uuid} (selects : Selects queue.rows device now count skipped ids)
    (settled : ∀ other ∈ queue.rows, other.deviceId = device → other.status ≠ .delivered)
    {kept : CommandRow Value} (waiting : kept ∈ candidates queue.rows device now skipped)
    (passed : kept.id ∉ ids) (same : row.SameOrder kept) (own : row.deviceId = device) :
    count ≤ queue.rows.countP (fun other => precedes row other && decide (other.id ∈ ids)) := by
  have fewer : ids.length < (candidates queue.rows device now skipped).length := by
    have together := List.subperm_of_subset (List.nodup_cons.mpr ⟨passed, selects.nodup⟩)
      (List.cons_subset.mpr ⟨List.mem_map_of_mem waiting, selects.among⟩)
    have longer := together.length_le
    rw [List.length_map] at longer
    exact longer
  have full : ids.length = count := by
    have length := selects.length
    omega
  have counted : ∀ id ∈ ids, id ∈ (queue.rows.filter fun other =>
      precedes row other && decide (other.id ∈ ids)).map CommandRow.id := by
    intro id taken
    obtain ⟨other, among, rfl⟩ := List.mem_map.mp (selects.among id taken)
    obtain ⟨there, pending, -⟩ := mem_candidates.mp among
    obtain ⟨owner, status, -⟩ := pending_iff.mp pending
    have queued : other.status = .queued := status.resolve_right (settled other there owner)
    have older := selects.oldest other among taken kept waiting passed
    have different : other.id ≠ row.id := fun equal =>
      passed (by rw [same.id, ← equal]; exact taken)
    refine List.mem_map_of_mem (List.mem_filter.mpr ⟨there, ?_⟩)
    simp [precedes, owner, own, queued, different, taken, same.createdAt ▸ older]
  rw [← full, List.countP_eq_length_filter, ← List.length_map CommandRow.id]
  exact (List.subperm_of_subset selects.nodup counted).length_le

theorem Accounted.turn (accounted : queue.Accounted) {kept : CommandRow Value}
    (here : kept ∈ queue.rows) (same : row.SameOrder kept)
    (attentive : Attentive row limit queue input) (taken : queue.step input = some next)
    (unreached : ¬ next.Reached row) :
    limit * polls row.deviceId [input] + next.ahead row ≤ queue.ahead row := by
  have before : ¬ queue.Reached row := fun reached => unreached (reached_of_step taken reached)
  cases step_moved taken with
  | inserted other fresh unused =>
      rw [ahead_insert attentive]
      simp [polls]
  | reported device id commandId res now named =>
      have fewer := ahead_report queue row device id res now []
      simpa [polls, ahead] using fewer
  | refused => simp [polls]
  | polled device query now skipped ids selects =>
      have moved := ahead_poll row queue.rows ids now
      let poll : CommandInput Value := .poll device query now skipped ids
      by_cases own : device = row.deviceId
      · obtain ⟨enough, live, free, settled⟩ := attentive own
        have queued := accounted.queued here same before
        have pending : kept.pending device now = true :=
          pending_iff.mpr ⟨same.deviceId.trans own.symm, Or.inl queued, same.expiresAt ▸ live⟩
        have passed : kept.id ∉ ids := by
          intro chosen
          refine unreached (Or.inl ?_)
          rw [handings_handed, if_pos (same.id ▸ chosen)]
          simp
        have waiting := mem_candidates.mpr ⟨here, pending, same.id ▸ free⟩
        have fill := passedOver selects settled waiting passed same own.symm
        have one : polls row.deviceId [poll] = 1 := by simp [polls, poll, own]
        change limit * _ + (deliverAll queue.rows ids now).countP (precedes row) ≤
          queue.rows.countP (precedes row)
        rw [one]
        omega
      · have none : polls row.deviceId [poll] = 0 := by simp [polls, poll, own]
        change limit * _ + (deliverAll queue.rows ids now).countP (precedes row) ≤
          queue.rows.countP (precedes row)
        rw [none]
        omega

theorem polls_cons (device : Uuid) (input : CommandInput Value) (rest : List (CommandInput Value)) :
    polls device (input :: rest) = polls device [input] + polls device rest := by
  simp only [polls, List.countP_cons, List.countP_nil]
  omega

theorem Accounted.turns {inputs : List (CommandInput Value)} (accounted : queue.Accounted)
    (stands : ∃ kept ∈ queue.rows, row.SameOrder kept)
    (attentive : Along CommandQueue.step (Attentive row limit) queue inputs)
    (ran : run CommandQueue.step queue inputs = some final) :
    final.Reached row ∨ limit * polls row.deviceId inputs + final.ahead row ≤ queue.ahead row := by
  induction inputs generalizing queue with
  | nil =>
      cases ran
      exact Or.inr (by simp [polls])
  | cons input rest ih =>
      obtain ⟨next, taken, remaining⟩ := run_cons_invert ran
      obtain ⟨kept, here, same⟩ := stands
      obtain ⟨later, there, after⟩ := step_keeps taken kept here
      obtain reached | bound :=
        ih (accounted.step taken) ⟨later, there, same.trans after⟩ (attentive.2 next taken)
          remaining
      · exact Or.inl reached
      · by_cases reached : next.Reached row
        · exact Or.inl (run_invariant (fun _ _ _ held taken => reached_of_step taken held) reached
            remaining)
        · have turn := accounted.turn here same attentive.1 taken reached
          refine Or.inr ?_
          rw [polls_cons, Nat.mul_add]
          omega

end Turn

section Sample

def gateTerminal : Uuid := 5

def ordered (id : Uuid) (createdAt : Int) : CommandRow Unit where
  id := id
  deviceId := gateTerminal
  kind := .reboot
  payload := .object ()
  status := .queued
  attempts := 0
  result := none
  error := none
  expiresAt := createdAt + 1000
  createdAt := createdAt
  deliveredAt := none
  completedAt := none

def threeOrdered : List (CommandInput Unit) := [
  .insert (ordered 1 100), .insert (ordered 2 200), .insert (ordered 3 300)]

def waiting : CommandQueue Unit := ⟨[ordered 1 100, ordered 2 200, ordered 3 300], []⟩

def polled : CommandQueue Unit :=
  ⟨[(ordered 1 100).deliver 400, (ordered 2 200).deliver 400, (ordered 3 300).deliver 400],
    [.handed gateTerminal 400 [1, 2, 3]]⟩

end Sample

theorem commands_accounted_poll :
    polled.Accounted ∧
      ∀ row, .insert row ∈ threeOrdered ++ [.poll gateTerminal "3" 400 [] [1, 2, 3]] →
      ∃ kept ∈ polled.rows, row.SameOrder kept :=
  commands_accounted (by decide +kernel)

end CommandQueue

end Presence.Gateway
