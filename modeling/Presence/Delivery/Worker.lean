import Mathlib.Data.Fintype.Basic
import Presence.Data.Run
import Presence.Go.Sha256
import Presence.Go.Strconv
import Presence.Go.Time
import Presence.Postgres.Types

namespace Presence.Delivery

open Presence.Go Presence.Postgres

/-! # The outbox and its delivery workers

`worker.go` and `backoff.go` over the table `outbox_event`.  Any number of worker
processes run `tick` at once.  Each is cut where another can act: the claiming
`SELECT`, the commit, each `POST`, each status update.  The choices of the
environment are the inputs of a step: which due rows a `SELECT` locks (`ORDER BY`
and `LIMIT` narrow it down, but rows of one recompute share their `created_at`),
what the consumer answers, which statements fail, when a process dies.
-/

inductive OutboxStatus where
  | pending | delivering | delivered | dead
deriving DecidableEq, Repr

structure OutboxRow where
  eventType : String
  payload : List UInt8
  status : OutboxStatus
  attempts : Nat
  nextAttemptAt : Int
  lastError : Option String
  deliveredAt : Option Int
deriving DecidableEq, Repr

abbrev Outbox := Uuid → Option OutboxRow

structure ClaimedRow where
  id : Uuid
  eventType : String
  payload : List UInt8
  attempts : Nat
deriving DecidableEq, Repr

def batchSize : Nat := 20

def maxAttempts : Nat := 12

def schedule : List Int :=
  [1, 2, 4, 8, 16, 32, 64, 128, 256, 300, 300].map (· * second)

def backoffFor (attempt : Int) : Int :=
  if attempt < 1 then schedule.headD 0
  else if attempt > schedule.length then schedule.getLastD 0
  else schedule.getD (attempt - 1).toNat 0

/-! ## One delivery -/

structure SendError where
  deadlineExceeded : Bool
  text : String
deriving DecidableEq, Repr

/-- How `send` can end.  A transport error may come before the request left or
after. -/
inductive Answer where
  | status (code : Nat)
  | transport (posted : Bool) (error : SendError)
deriving DecidableEq, Repr

def Answer.posted : Answer → Bool
  | .status _ => true
  | .transport posted _ => posted

def Answer.error : Answer → Option SendError
  | .status code =>
      if code < 200 ∨ code ≥ 300 then some ⟨false, "consumer returned " ++ toString code⟩ else none
  | .transport _ error => some error

/-- `errMsg`, cut after 500 bytes. -/
def errMsg (error : SendError) : String :=
  String.ofList ((if error.deadlineExceeded then "timeout" else error.text).toList.take 500)

structure Post where
  eventId : Uuid
  eventType : String
  signature : String
  body : List UInt8
deriving DecidableEq

def signatureHeader (secret : List UInt8) (tsMillis : Int) (body : List UInt8) : String :=
  let stamp := (toString tsMillis).toList.map fun char => UInt8.ofNat char.toNat
  let dot : List UInt8 := [UInt8.ofNat '.'.toNat]
  "t=" ++ toString tsMillis ++ ",v1=" ++ encodeHex (hmacSha256 secret (stamp ++ dot ++ body))

def post (secret : List UInt8) (row : ClaimedRow) (tsMillis : Int) : Post :=
  ⟨row.id, row.eventType, signatureHeader secret tsMillis row.payload, row.payload⟩

/-- The three status updates of `deliverOne`.  They write the number of attempts
from the claimed copy, not from the row. -/
def settled (claimed : ClaimedRow) (answer : Answer) (now : Int) (row : OutboxRow) : OutboxRow :=
  match answer.error with
  | none => { row with status := .delivered, deliveredAt := some now }
  | some error =>
      let attempts := claimed.attempts + 1
      if attempts ≥ maxAttempts then
        { row with status := .dead, attempts, lastError := some (errMsg error) }
      else
        { row with
          status := .pending
          attempts
          nextAttemptAt := now + backoffFor attempts
          lastError := some (errMsg error) }

/-! ## Workers -/

inductive Phase where
  | idle
  /-- The claiming transaction is open and holds the row locks. -/
  | claiming (claimedAt : Int) (rows : List ClaimedRow)
  | delivering (claimedAt : Int) (rows : List ClaimedRow)
  /-- The first row was sent; its status update comes next. -/
  | settling (claimedAt : Int) (row : ClaimedRow) (answer : Answer) (rest : List ClaimedRow)
  | stopped

namespace Phase

def held : Phase → List ClaimedRow
  | .claiming _ rows | .delivering _ rows => rows
  | .settling _ row _ rest => row :: rest
  | .idle | .stopped => []

/-- The batch a live worker is about to deliver or settle. -/
def batch : Phase → List ClaimedRow
  | .delivering _ rows => rows
  | .settling _ row _ rest => row :: rest
  | .claiming _ _ | .idle | .stopped => []

def ids (phase : Phase) : List Uuid := phase.held.map ClaimedRow.id

def locks : Phase → List Uuid
  | .claiming _ rows => rows.map ClaimedRow.id
  | _ => []

def ofBatch (claimedAt : Int) : List ClaimedRow → Phase
  | [] => .idle
  | rows => .delivering claimedAt rows

@[simp] theorem held_ofBatch (claimedAt : Int) (rows : List ClaimedRow) :
    (ofBatch claimedAt rows).held = rows := by
  cases rows <;> rfl

@[simp] theorem batch_ofBatch (claimedAt : Int) (rows : List ClaimedRow) :
    (ofBatch claimedAt rows).batch = rows := by
  cases rows <;> rfl

end Phase

structure Worker where
  phase : Phase
  cancelled : Bool

/-- A request that left a worker, when its row was claimed, and the row's
`next_attempt_at` as it stood. -/
structure Sent where
  post : Post
  claimedAt : Int
  nextAttemptAt : Option Int

structure System (workers : Nat) where
  secret : List UInt8
  outbox : Outbox
  worker : Fin workers → Worker
  claims : List Uuid
  sent : List Sent

inductive Input (workers : Nat) where
  | insert (id : Uuid) (row : OutboxRow)
  | select (worker : Fin workers) (now : Int) (ids : List Uuid)
  | rollback (worker : Fin workers)
  | commit (worker : Fin workers)
  /-- The commit takes effect, but the worker is told that it failed. -/
  | commitUnheard (worker : Fin workers)
  | send (worker : Fin workers) (tsMillis : Int) (answer : Answer)
  | settle (worker : Fin workers) (now : Int)
  | settleFails (worker : Fin workers)
  | cancel (worker : Fin workers)
  | stop (worker : Fin workers)
  | crash (worker : Fin workers)
  | restart (worker : Fin workers)

namespace System

variable {workers : Nat}

/-- A committed row that is pending, due, and locked by no open transaction. -/
def eligible (system : System workers) (now : Int) (id : Uuid) : Bool :=
  (match system.outbox id with
    | none => false
    | some row => row.status = .pending ∧ row.nextAttemptAt ≤ now) &&
    decide (∀ other, id ∉ (system.worker other).phase.locks)

def claimedRow (outbox : Outbox) (id : Uuid) : Option ClaimedRow :=
  (outbox id).map fun row => ⟨id, row.eventType, row.payload, row.attempts⟩

def markDelivering (outbox : Outbox) (rows : List ClaimedRow) : Outbox := fun id =>
  (outbox id).map fun row =>
    if id ∈ rows.map ClaimedRow.id then { row with status := .delivering } else row

def setWorker (system : System workers) (index : Fin workers) (worker : Worker) :
    System workers :=
  { system with worker := Function.update system.worker index worker }

def setPhase (system : System workers) (index : Fin workers) (phase : Phase) : System workers :=
  system.setWorker index { system.worker index with phase }

def step (system : System workers) : Input workers → Option (System workers)
  | .insert id row =>
      if system.outbox id = none ∧ row.status = .pending ∧ row.attempts = 0 then
        some { system with outbox := Function.update system.outbox id (some row) }
      else none
  | .select index now ids =>
      match system.worker index with
      | ⟨.idle, false⟩ =>
          if ids.Nodup ∧ ids.length ≤ batchSize ∧ ids.all (system.eligible now) then
            some (system.setPhase index (.claiming now (ids.filterMap (claimedRow system.outbox))))
          else none
      | _ => none
  | .rollback index =>
      match (system.worker index).phase with
      | .claiming _ _ => some (system.setPhase index .idle)
      | _ => none
  | .commit index =>
      match system.worker index with
      | ⟨.claiming claimedAt rows, false⟩ =>
          some { system.setPhase index (.ofBatch claimedAt rows) with
            outbox := markDelivering system.outbox rows
            claims := system.claims ++ rows.map ClaimedRow.id }
      | _ => none
  | .commitUnheard index =>
      match (system.worker index).phase with
      | .claiming _ rows =>
          some { system.setPhase index .idle with
            outbox := markDelivering system.outbox rows
            claims := system.claims ++ rows.map ClaimedRow.id }
      | _ => none
  | .send index tsMillis answer =>
      match system.worker index with
      | ⟨.delivering claimedAt (row :: rest), cancelled⟩ =>
          -- under a cancelled context the client gives up before it sends
          if cancelled ∧ answer.posted then none
          else
            let sent : Sent := ⟨post system.secret row tsMillis, claimedAt,
              (system.outbox row.id).map OutboxRow.nextAttemptAt⟩
            some { system.setPhase index (.settling claimedAt row answer rest) with
              sent := if answer.posted then system.sent ++ [sent] else system.sent }
      | _ => none
  | .settle index now =>
      match system.worker index with
      | ⟨.settling claimedAt row answer rest, false⟩ =>
          some { system.setPhase index (.ofBatch claimedAt rest) with
            outbox := Function.update system.outbox row.id
              ((system.outbox row.id).map (settled row answer now)) }
      | _ => none
  | .settleFails index =>
      -- the error is logged and the loop goes on to the next row
      match (system.worker index).phase with
      | .settling claimedAt _ _ rest => some (system.setPhase index (.ofBatch claimedAt rest))
      | _ => none
  | .cancel index =>
      some (system.setWorker index { system.worker index with cancelled := true })
  | .stop index =>
      match system.worker index with
      | ⟨.idle, true⟩ => some (system.setPhase index .stopped)
      | _ => none
  | .crash index => some (system.setPhase index .stopped)
  | .restart index =>
      match (system.worker index).phase with
      | .stopped => some (system.setWorker index ⟨.idle, false⟩)
      | _ => none

structure Started (system : System workers) : Prop where
  rows : ∀ id row, system.outbox id = some row → row.status = .pending ∧ row.attempts = 0
  idle : ∀ index, (system.worker index).phase = .idle
  claims : system.claims = []
  sent : system.sent = []

/-! ## What a step can do -/

inductive Moved (system : System workers) : Input workers → System workers → Prop
  | inserted (id : Uuid) (row : OutboxRow) (fresh : system.outbox id = none)
      (pending : row.status = .pending) (untried : row.attempts = 0) :
      Moved system (.insert id row)
        { system with outbox := Function.update system.outbox id (some row) }
  | selected (index : Fin workers) (now : Int) (ids : List Uuid)
      (idle : (system.worker index).phase = .idle) (nodup : ids.Nodup)
      (eligible : ∀ id ∈ ids, system.eligible now id = true) :
      Moved system (.select index now ids)
        (system.setPhase index (.claiming now (ids.filterMap (claimedRow system.outbox))))
  | committed (index : Fin workers) (claimedAt : Int) (rows : List ClaimedRow)
      (claiming : (system.worker index).phase = .claiming claimedAt rows) :
      Moved system (.commit index)
        { system.setPhase index (.ofBatch claimedAt rows) with
          outbox := markDelivering system.outbox rows
          claims := system.claims ++ rows.map ClaimedRow.id }
  | committedUnheard (index : Fin workers) (claimedAt : Int) (rows : List ClaimedRow)
      (claiming : (system.worker index).phase = .claiming claimedAt rows) :
      Moved system (.commitUnheard index)
        { system.setPhase index .idle with
          outbox := markDelivering system.outbox rows
          claims := system.claims ++ rows.map ClaimedRow.id }
  | sent (index : Fin workers) (tsMillis : Int) (answer : Answer) (claimedAt : Int)
      (row : ClaimedRow) (rest : List ClaimedRow) (sent : Sent)
      (delivering : (system.worker index).phase = .delivering claimedAt (row :: rest))
      (named : sent.post.eventId = row.id) (claim : sent.claimedAt = claimedAt)
      (due : sent.nextAttemptAt = (system.outbox row.id).map OutboxRow.nextAttemptAt) :
      Moved system (.send index tsMillis answer)
        { system.setPhase index (.settling claimedAt row answer rest) with
          sent := if answer.posted then system.sent ++ [sent] else system.sent }
  | settled (index : Fin workers) (now : Int) (answer : Answer) (claimedAt : Int)
      (row : ClaimedRow) (rest : List ClaimedRow)
      (settling : (system.worker index).phase = .settling claimedAt row answer rest) :
      Moved system (.settle index now)
        { system.setPhase index (.ofBatch claimedAt rest) with
          outbox := Function.update system.outbox row.id
            ((system.outbox row.id).map (Delivery.settled row answer now)) }
  | unsettled (index : Fin workers) (answer : Answer) (claimedAt : Int)
      (row : ClaimedRow) (rest : List ClaimedRow)
      (settling : (system.worker index).phase = .settling claimedAt row answer rest) :
      Moved system (.settleFails index) (system.setPhase index (.ofBatch claimedAt rest))
  | cancelled (index : Fin workers) :
      Moved system (.cancel index)
        (system.setWorker index { system.worker index with cancelled := true })
  /-- A worker that holds nothing afterwards; only a crash can lose a batch. -/
  | emptied (index : Fin workers) (input : Input workers) (worker : Worker)
      (empty : worker.phase.held = [])
      (lossless : input = .crash index ∨ (system.worker index).phase.batch = []) :
      Moved system input (system.setWorker index worker)

theorem step_moved {system next : System workers} {input : Input workers}
    (taken : system.step input = some next) : Moved system input next := by
  cases input with
  | insert id row =>
      simp only [step, Option.ite_none_right_eq_some, Option.some.injEq] at taken
      obtain ⟨⟨fresh, pending, untried⟩, rfl⟩ := taken
      exact .inserted id row fresh pending untried
  | select index now ids =>
      simp only [step] at taken
      split at taken
      · rename_i worker
        simp only [Option.ite_none_right_eq_some, Option.some.injEq] at taken
        obtain ⟨⟨nodup, -, eligible⟩, rfl⟩ := taken
        exact .selected index now ids (by rw [worker]) nodup (List.all_eq_true.mp eligible)
      · contradiction
  | rollback index =>
      simp only [step] at taken
      split at taken
      · rename_i claiming
        cases taken
        exact .emptied index _ _ rfl (Or.inr (by rw [claiming]; rfl))
      · contradiction
  | commit index =>
      simp only [step] at taken
      split at taken
      · rename_i claimedAt rows worker
        cases taken
        exact .committed index claimedAt rows (by rw [worker])
      · contradiction
  | commitUnheard index =>
      simp only [step] at taken
      split at taken
      · rename_i claimedAt rows claiming
        cases taken
        exact .committedUnheard index claimedAt rows claiming
      · contradiction
  | send index tsMillis answer =>
      simp only [step] at taken
      split at taken
      · rename_i claimedAt row rest cancelled worker
        split at taken
        · contradiction
        · cases taken
          exact .sent index tsMillis answer claimedAt row rest _ (by rw [worker]) rfl rfl rfl
      · contradiction
  | settle index now =>
      simp only [step] at taken
      split at taken
      · rename_i claimedAt row answer rest worker
        cases taken
        exact .settled index now answer claimedAt row rest (by rw [worker])
      · contradiction
  | settleFails index =>
      simp only [step] at taken
      split at taken
      · rename_i claimedAt row answer rest settling
        cases taken
        exact .unsettled index answer claimedAt row rest settling
      · contradiction
  | cancel index =>
      cases taken
      exact .cancelled index
  | stop index =>
      simp only [step] at taken
      split at taken
      · rename_i worker
        cases taken
        exact .emptied index _ _ rfl (Or.inr (by rw [worker]; rfl))
      · contradiction
  | crash index =>
      cases taken
      exact .emptied index _ _ rfl (Or.inl rfl)
  | restart index =>
      simp only [step] at taken
      split at taken
      · rename_i stopped
        cases taken
        exact .emptied index _ _ rfl (Or.inr (by rw [stopped]; rfl))
      · contradiction

end System

end Presence.Delivery
