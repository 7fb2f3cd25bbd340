import Presence.Data.History
import Presence.Data.Run
import Presence.Firmware.HoldTrigger
import Presence.Firmware.TerminalState

namespace Presence.Firmware.Scan

open Presence.Data

/-! # The scan task

`scanTask` of `main.cpp`, one pass of its loop at a time, with the checks of `setup` that
come before it and the one note of the network task that it reads.  What the sensor
answers, whether the record could be written and when the clock is read are the
environment's.  Times are in true milliseconds since the boot; the task has `millis()`.
How a record is filled in is the business of other modules.
-/

def kDebounceMs : UInt32 := 5000

inductive ImageReply where
  | packetError
  | ok
  | other
deriving DecidableEq, Repr

/-- What one pass meets. -/
structure Env where
  checkedAt : Nat
  notedAt : Nat
  matchedAt : Nat
  verified : Bool
  image : ImageReply
  converted : Bool
  slot : Option UInt16
  persisted : Bool
  /-- The feedback queue has a free place; the task does not wait for one. -/
  room : Bool
deriving DecidableEq, Repr

/-- What the loop did, with the times it read. -/
inductive ScanEvent where
  | waited (time : Nat)
  | probe (start stop : Nat) (ok : Bool)
  | error (time : Nat) (lost : Bool)
  | replied
  | denied
  | suppressed (slot : UInt16) (time : Nat)
  | punch (slot : UInt16) (time : Nat) (persisted : Bool)
deriving DecidableEq, Repr

/-- What an event puts into the feedback queue. -/
def ScanEvent.verdict : ScanEvent → Option UInt8
  | .punch _ _ persisted => some (if persisted then 1 else 2)
  | .denied => some 0
  | _ => none

def ScanEvent.isPunch : ScanEvent → Bool
  | .punch .. => true
  | _ => false

def ScanEvent.isDropped : ScanEvent → Bool
  | .punch _ _ persisted => !persisted
  | _ => false

structure Task where
  status : TerminalStatus
  clock : Nat
  lastProbeMs : UInt32
  lastSlot : UInt16
  lastSlotAtMs : UInt32
  /-- What went into the feedback queue. -/
  told : List UInt8
  log : List ScanEvent
deriving DecidableEq, Repr

namespace Task

/-- The end of `setup`, and the task up to its loop. -/
def setup (sensor buffer provisioned : Bool) (startedAt : Nat) : Task where
  status := ((TerminalStatus.initial.beginSelfTest.setSensorOk sensor).setBufferOpened buffer
    |>.setProvisioned provisioned).selfTestDone
  clock := startedAt
  lastProbeMs := .ofNat startedAt
  lastSlot := 0
  lastSlotAtMs := 0
  told := []
  log := []

def note (task : Task) (event : ScanEvent) : Task := { task with log := task.log ++ [event] }

def tell (task : Task) (env : Env) (verdict : UInt8) : Task :=
  if env.room then { task with told := task.told ++ [verdict] } else task

/-- The sensor is lost: a probe when it is due. -/
def reprobe (task : Task) (env : Env) : Task :=
  if UInt32.ofNat env.checkedAt - task.lastProbeMs ≥ task.status.sensorProbeDelayMs then
    { task with
      status := task.status.noteSensorProbe env.verified
      lastProbeMs := .ofNat env.notedAt
      log := task.log ++ [.probe env.checkedAt env.notedAt env.verified] }
  else task.note (.waited env.checkedAt)

def commError (task : Task) (env : Env) : Task :=
  let (lost, status) := task.status.noteSensorCommError
  { task with
    status
    lastProbeMs := if lost then .ofNat env.notedAt else task.lastProbeMs
    log := task.log ++ [.error env.notedAt lost] }

/-- A finger that the sensor knows. -/
def matched (task : Task) (env : Env) (slot : UInt16) : Task :=
  let nowMs := UInt32.ofNat env.matchedAt
  if slot = task.lastSlot ∧ nowMs - task.lastSlotAtMs < kDebounceMs then
    task.note (.suppressed slot env.matchedAt)
  else
    let task := { task with
      lastSlot := slot
      lastSlotAtMs := nowMs
      log := task.log ++ [ScanEvent.punch slot env.matchedAt env.persisted] }
    -- persisted first, confirmed second
    let task := task.tell env (if env.persisted then 1 else 2)
    if !env.persisted then { task with status := task.status.noteBufferWriteFailed } else task

def scanned (task : Task) (env : Env) : Task :=
  match env.image with
  | .packetError => task.commError env
  | reply =>
      let task := { task with
        status := task.status.noteSensorReplied, log := task.log ++ [ScanEvent.replied] }
      if reply ≠ .ok then task
      else if !env.converted then task
      else
        match env.slot with
        | none => (task.note .denied).tell env 0
        | some slot => task.matched env slot

def pass (task : Task) (env : Env) : Task :=
  let st := task.status.state
  let task := { task with clock := env.matchedAt }
  if !task.status.sensorOk then task.reprobe env
  else if st ≠ .ready then task
  else task.scanned env

inductive Input where
  | pass (env : Env)
  /-- The network task has stored a device secret. -/
  | provisioned
deriving DecidableEq, Repr

def step (task : Task) : Input → Option Task
  | .pass env =>
      if task.clock ≤ env.checkedAt ∧ env.checkedAt ≤ env.notedAt ∧
          env.notedAt ≤ env.matchedAt then some (task.pass env) else none
  | .provisioned => some { task with status := task.status.setProvisioned true }

/-! ## What a pass can do -/

def Due (task : Task) (env : Env) : Prop :=
  UInt32.ofNat env.checkedAt - task.lastProbeMs ≥ task.status.sensorProbeDelayMs

def Repeated (task : Task) (env : Env) (slot : UInt16) : Prop :=
  slot = task.lastSlot ∧ UInt32.ofNat env.matchedAt - task.lastSlotAtMs < kDebounceMs

inductive Did (task : Task) (env : Env) : Task → Prop
  | waited (down : task.status.sensorOk = false) (early : ¬ task.Due env) :
      Did task env { task with
        clock := env.matchedAt, log := task.log ++ [.waited env.checkedAt] }
  | probed (down : task.status.sensorOk = false) (due : task.Due env) :
      Did task env { task with
        clock := env.matchedAt
        status := task.status.noteSensorProbe env.verified
        lastProbeMs := .ofNat env.notedAt
        log := task.log ++ [.probe env.checkedAt env.notedAt env.verified] }
  | idle (up : task.status.sensorOk = true) (unready : task.status.state ≠ .ready) :
      Did task env { task with clock := env.matchedAt }
  | failed (ready : task.status.state = .ready) :
      Did task env { task with
        clock := env.matchedAt
        status := task.status.noteSensorCommError.2
        lastProbeMs := if task.status.noteSensorCommError.1 then .ofNat env.notedAt
          else task.lastProbeMs
        log := task.log ++ [.error env.notedAt task.status.noteSensorCommError.1] }
  | replied (ready : task.status.state = .ready) :
      Did task env { task with
        clock := env.matchedAt
        status := task.status.noteSensorReplied
        log := task.log ++ [.replied] }
  | denied (ready : task.status.state = .ready) :
      Did task env { task with
        clock := env.matchedAt
        status := task.status.noteSensorReplied
        told := if env.room then task.told ++ [0] else task.told
        log := task.log ++ [.replied] ++ [.denied] }
  | suppressed (ready : task.status.state = .ready) (slot : UInt16)
      (again : task.Repeated env slot) :
      Did task env { task with
        clock := env.matchedAt
        status := task.status.noteSensorReplied
        log := task.log ++ [.replied] ++ [.suppressed slot env.matchedAt] }
  | punched (ready : task.status.state = .ready) (slot : UInt16)
      (fresh : ¬ task.Repeated env slot) :
      Did task env { task with
        clock := env.matchedAt
        status := if env.persisted then task.status.noteSensorReplied
          else task.status.noteSensorReplied.noteBufferWriteFailed
        lastSlot := slot
        lastSlotAtMs := .ofNat env.matchedAt
        told := if env.room then task.told ++ [if env.persisted then 1 else 2] else task.told
        log := task.log ++ [.replied] ++ [.punch slot env.matchedAt env.persisted] }

variable {task next final : Task} {env : Env} {input : Input}

theorem matched_repeated {slot : UInt16} (again : task.Repeated env slot) :
    task.matched env slot = task.note (.suppressed slot env.matchedAt) := if_pos again

theorem matched_fresh {slot : UInt16} (fresh : ¬ task.Repeated env slot) :
    task.matched env slot = { task with
      status := if env.persisted then task.status else task.status.noteBufferWriteFailed
      lastSlot := slot
      lastSlotAtMs := .ofNat env.matchedAt
      told := if env.room then task.told ++ [if env.persisted then 1 else 2] else task.told
      log := task.log ++ [.punch slot env.matchedAt env.persisted] } := by
  simp only [Repeated] at fresh
  rw [matched, if_neg fresh]
  cases stored : env.persisted <;> cases room : env.room <;> simp [tell, room]

theorem did_pass (task : Task) (env : Env) : Did task env (task.pass env) := by
  simp only [pass]
  by_cases up : task.status.sensorOk = true
  · rw [if_neg (by simp [up])]
    by_cases ready : task.status.state = .ready
    · rw [if_neg (by simp [ready])]
      simp only [scanned]
      split
      · exact .failed ready
      · rename_i reply _
        split
        · exact .replied ready
        · split
          · exact .replied ready
          · split
            · simp only [tell, note]
              split
              · rename_i room
                have denied : Did task env _ := .denied ready
                simpa [room] using denied
              · rename_i full
                have denied : Did task env _ := .denied ready
                simpa [full] using denied
            · rename_i slot found
              let heard : Task := { task with
                clock := env.matchedAt
                status := task.status.noteSensorReplied
                log := task.log ++ [.replied] }
              change Did task env (heard.matched env slot)
              by_cases again : heard.Repeated env slot
              · rw [matched_repeated again]
                exact .suppressed ready slot again
              · rw [matched_fresh again]
                exact .punched ready slot again
    · rw [if_pos ready]
      exact .idle up ready
  · rw [if_pos (by simp [up])]
    simp only [reprobe]
    split
    · rename_i due
      exact .probed (by simpa using up) due
    · rename_i early
      exact .waited (by simpa using up) early

/-! ## Green means stored -/

/-- After a punch that was not written there is no other. -/
def Latches (first second : ScanEvent) : Prop := first.isDropped = true → second.isPunch = false

structure Honest (buffer : Bool) (task : Task) : Prop where
  running : task.status.phase = .running
  told : task.told.Sublist (task.log.filterMap ScanEvent.verdict)
  latched : task.log.Pairwise Latches
  stopped : task.status.bufferOk = true →
    buffer = true ∧ ∀ event ∈ task.log, event.isDropped = false
  opened : ∀ event ∈ task.log, event.isPunch = true → buffer = true

variable {buffer : Bool}

theorem isDropped_of_not_punch {event : ScanEvent} (other : event.isPunch = false) :
    event.isDropped = false := by
  cases event with
  | punch => contradiction
  | _ => rfl

/-- An event that is no punch, whatever it tells. -/
theorem Honest.quiet (honest : task.Honest buffer) {status : TerminalStatus} {event : ScanEvent}
    (other : event.isPunch = false) (same : task.status.SameElse status) {told : List UInt8}
    (speaks : told = task.told ∨ ∃ verdict, event.verdict = some verdict ∧
      told = task.told ++ [verdict]) {clock : Nat} {lastProbeMs lastSlotAtMs : UInt32}
    {lastSlot : UInt16} :
    Honest buffer
      ⟨status, clock, lastProbeMs, lastSlot, lastSlotAtMs, told, task.log ++ [event]⟩ where
  running := same.phase.trans honest.running
  told := by
    simp only [List.filterMap_append]
    obtain rfl | ⟨verdict, spoken, rfl⟩ := speaks
    · exact honest.told.trans (List.sublist_append_left _ _)
    · rw [List.filterMap_cons_some spoken, List.filterMap_nil]
      exact honest.told.append_right [verdict]
  latched := List.pairwise_append.mpr ⟨honest.latched, List.pairwise_singleton _ _,
    fun earlier _ later same => by cases List.mem_singleton.mp same; exact fun _ => other⟩
  stopped := by
    intro good
    obtain ⟨opened, all⟩ := honest.stopped (same.bufferOk.symm.trans good)
    refine ⟨opened, fun past member => ?_⟩
    obtain old | same := List.mem_append.mp member
    · exact all past old
    · cases List.mem_singleton.mp same
      exact isDropped_of_not_punch other
  opened := by
    intro past member punched
    obtain old | same := List.mem_append.mp member
    · exact honest.opened past old punched
    · cases List.mem_singleton.mp same
      exact absurd (other.symm.trans punched) (by decide)

theorem Honest.replied (honest : task.Honest buffer) (clock : Nat) :
    Honest buffer { task with
      clock := clock, status := task.status.noteSensorReplied, log := task.log ++ [.replied] } :=
  honest.quiet rfl task.status.sameElse_replied (Or.inl rfl)

theorem Honest.punched (honest : task.Honest buffer) (ready : task.status.state = .ready)
    (slot : UInt16) (time : Nat) (persisted room : Bool) {clock : Nat}
    {lastProbeMs lastSlotAtMs : UInt32} {lastSlot : UInt16} :
    Honest buffer
      ⟨if persisted then task.status else task.status.noteBufferWriteFailed, clock, lastProbeMs,
        lastSlot, lastSlotAtMs,
        if room then task.told ++ [if persisted then 1 else 2] else task.told,
        task.log ++ [.punch slot time persisted]⟩ := by
  obtain ⟨phase, -, bufferOk, -⟩ := TerminalStatus.state_eq_ready.mp ready
  obtain ⟨opened, none⟩ := honest.stopped bufferOk
  constructor
  · cases persisted <;> exact phase
  · simp only [List.filterMap_append]
    cases room
    · exact honest.told.trans (List.sublist_append_left _ _)
    · exact honest.told.append_right _
  · refine List.pairwise_append.mpr ⟨honest.latched, List.pairwise_singleton _ _, ?_⟩
    intro earlier member later same dropped
    exact absurd ((none earlier member).symm.trans dropped) (by decide)
  · intro good
    cases persisted
    · contradiction
    · refine ⟨opened, fun past member => ?_⟩
      obtain old | same := List.mem_append.mp member
      · exact none past old
      · cases List.mem_singleton.mp same
        rfl
  · exact fun _ _ _ => opened

theorem Honest.pass (honest : task.Honest buffer) (env : Env) : (task.pass env).Honest buffer := by
  have did := did_pass task env
  generalize task.pass env = next at did
  cases did with
  | waited down early => exact honest.quiet rfl ⟨rfl, rfl, rfl, rfl⟩ (Or.inl rfl)
  | probed down due => exact honest.quiet rfl (task.status.sameElse_probe _) (Or.inl rfl)
  | idle up unready =>
      exact ⟨honest.running, honest.told, honest.latched, honest.stopped, honest.opened⟩
  | failed ready => exact honest.quiet rfl task.status.sameElse_commError (Or.inl rfl)
  | replied ready => exact honest.replied env.matchedAt
  | denied ready =>
      refine (honest.replied env.matchedAt).quiet rfl ⟨rfl, rfl, rfl, rfl⟩ ?_
      cases env.room
      · exact Or.inl rfl
      · exact Or.inr ⟨0, rfl, rfl⟩
  | suppressed ready slot again =>
      exact (honest.replied env.matchedAt).quiet rfl ⟨rfl, rfl, rfl, rfl⟩ (Or.inl rfl)
  | punched ready slot fresh =>
      exact (honest.replied env.matchedAt).punched ready slot env.matchedAt env.persisted env.room

theorem Honest.step (honest : task.Honest buffer) (taken : task.step input = some next) :
    next.Honest buffer := by
  cases input with
  | pass env =>
      simp only [Task.step, Option.ite_none_right_eq_some, Option.some.injEq] at taken
      exact taken.2 ▸ honest.pass env
  | provisioned =>
      cases taken
      exact ⟨honest.running, honest.told, honest.latched, honest.stopped, honest.opened⟩

/-! ## The sensor is watched

A sensor is lost at five errors with no answer between them, and asked again after two
seconds, four, and so on up to a minute, until it answers.
-/

inductive SensorEvent where
  | error | replied | badProbe | goodProbe
deriving DecidableEq, Repr

def sensorEvent : ScanEvent → Option SensorEvent
  | .error .. => some .error
  | .replied => some .replied
  | .probe _ _ ok => some (if ok then .goodProbe else .badProbe)
  | _ => none

def sensorLog (log : List ScanEvent) : List SensorEvent := log.filterMap sensorEvent

/-- Since five errors on end, or since the boot, nothing but probes without an answer. -/
def Lost (booted : Bool) (log : List SensorEvent) : Prop :=
  ∃ earlier later, log = earlier ++ later ∧ (∀ event ∈ later, event = .badProbe) ∧
    (earlier = [] ∧ booted = false ∨ ∃ front, earlier = front ++ List.replicate 5 .error)

/-- The probes that failed since the sensor was lost. -/
def failures (log : List ScanEvent) : Nat :=
  ((sensorLog log).reverse.takeWhile fun event => decide (event = .badProbe)).length

def mark : ScanEvent → Option Nat
  | .probe _ stop _ => some stop
  | .error time true => some time
  | _ => none

/-- When the last probe ended, or the sensor was lost, or the task began. -/
def since (startedAt : Nat) (log : List ScanEvent) : Nat :=
  (log.filterMap mark).getLast?.getD startedAt

def probeDelay (log : List ScanEvent) : Nat := min (2000 * 2 ^ failures log) 60000

/-- When the loop may do what it did. -/
def Timed (booted : Bool) (startedAt : Nat) (earlier : List ScanEvent) : ScanEvent → Prop
  | .probe start _ _ => Lost booted (sensorLog earlier) ∧
      probeDelay earlier ≤ start - since startedAt earlier
  | .waited time => Lost booted (sensorLog earlier) ∧
      (time - since startedAt earlier) % 2 ^ 32 < probeDelay earlier
  | .error _ lost => ¬ Lost booted (sensorLog earlier) ∧
      (lost = true ↔ Lost booted (sensorLog earlier ++ [.error]))
  | .replied => ¬ Lost booted (sensorLog earlier)
  | _ => True

/-- A log that ends where the count of errors is zero. -/
def Settled (booted : Bool) (log : List SensorEvent) : Prop :=
  log = [] ∧ booted = true ∨
    ∃ rest last, log = rest ++ [last] ∧ (last = .replied ∨ last = .goodProbe)

variable {booted : Bool} {startedAt : Nat}

theorem Settled.last {front : List SensorEvent} (settled : Settled booted front)
    {event : SensorEvent} (last : event ∈ front.getLast?) : event ≠ .badProbe ∧ event ≠ .error := by
  obtain ⟨rfl, -⟩ | ⟨rest, last', rfl, rfl | rfl⟩ := settled
  · simp at last
  all_goals
    rw [List.getLast?_concat, Option.mem_some_iff] at last
    subst last
    exact ⟨by simp, by simp⟩

theorem not_badProbe_of_getLast {front : List SensorEvent} (settled : Settled booted front)
    {count : Nat} {event : SensorEvent}
    (last : event ∈ (front ++ List.replicate count SensorEvent.error).getLast?) :
    event ≠ .badProbe := by
  cases count with
  | zero => exact (settled.last (by simpa using last)).1
  | succ count =>
      rw [List.replicate_succ', ← List.append_assoc, List.getLast?_concat,
        Option.mem_some_iff] at last
      subst last
      simp

theorem not_lost_of_settled {front : List SensorEvent} (settled : Settled booted front)
    {count : Nat} (few : count < 5) : ¬ Lost booted (front ++ List.replicate count .error) := by
  intro ⟨earlier, later, split, bad, origin⟩
  cases later using List.reverseRecOn with
  | append_singleton later last =>
      have ends : last ∈ (front ++ List.replicate count SensorEvent.error).getLast? := by
        rw [split, ← List.append_assoc, List.getLast?_concat, Option.mem_some_iff]
      exact not_badProbe_of_getLast settled ends (bad last (by simp))
  | nil =>
      rw [List.append_nil] at split
      obtain ⟨rfl, down⟩ | ⟨before, rfl⟩ := origin
      · obtain ⟨empty, -⟩ := List.append_eq_nil_iff.mp split
        obtain ⟨-, up⟩ | ⟨rest, last, rfl, -⟩ := settled
        · exact absurd (up.symm.trans down) (by decide)
        · simp at empty
      · obtain ⟨tail, -, fits⟩ | ⟨tail, rfl, fits⟩ := List.append_eq_append_iff.mp split
        · have longer := congrArg List.length fits
          simp only [List.length_append, List.length_replicate] at longer
          omega
        · have longer := congrArg List.length fits
          simp only [List.length_append, List.length_replicate] at longer
          cases tail using List.reverseRecOn with
          | nil => simp at longer; omega
          | append_singleton tail last =>
              have same : last = .error := by
                apply List.eq_of_mem_replicate (n := 5)
                rw [fits]
                simp
              exact (settled.last (by simp)).2 same

theorem Lost.probed {log : List SensorEvent} (lost : Lost booted log) :
    Lost booted (log ++ [.badProbe]) := by
  obtain ⟨earlier, later, rfl, bad, origin⟩ := lost
  refine ⟨earlier, later ++ [.badProbe], by simp, ?_, origin⟩
  intro event member
  obtain old | last := List.mem_append.mp member
  · exact bad event old
  · exact List.mem_singleton.mp last

theorem lost_of_five (front : List SensorEvent) :
    Lost booted (front ++ List.replicate 5 .error) :=
  ⟨_, [], (List.append_nil _).symm, by simp, Or.inr ⟨front, rfl⟩⟩

theorem sensorLog_concat (log : List ScanEvent) (event : ScanEvent) :
    sensorLog (log ++ [event]) = sensorLog log ++ (sensorEvent event).toList := by
  rw [sensorLog, List.filterMap_append, ← sensorLog]
  cases heard : sensorEvent event with
  | none => simp [heard]
  | some noted => simp [heard]

theorem since_concat (log : List ScanEvent) (event : ScanEvent) :
    since startedAt (log ++ [event]) = (mark event).getD (since startedAt log) := by
  simp only [since, List.filterMap_append]
  cases marked : mark event with
  | none => simp [marked]
  | some time => simp [marked]

theorem failures_badProbe {log : List ScanEvent} {start stop : Nat} :
    failures (log ++ [.probe start stop false]) = failures log + 1 := by
  simp [failures, sensorLog_concat, sensorEvent]

theorem failures_error {log : List ScanEvent} {time : Nat} {lost : Bool} :
    failures (log ++ [.error time lost]) = 0 := by
  simp [failures, sensorLog_concat, sensorEvent]

/-- What the status and the times say of the log. -/
structure Watched (booted : Bool) (startedAt : Nat) (task : Task) : Prop where
  up : task.status.sensorOk = true → ∃ front count,
    sensorLog task.log = front ++ List.replicate count .error ∧ Settled booted front ∧
      count < 5 ∧ task.status.commErrors.toNat = count
  down : task.status.sensorOk = false → Lost booted (sensorLog task.log) ∧
    task.status.commErrors = 0 ∧ task.status.failedProbes.toNat = min (failures task.log) 31
  marked : task.lastProbeMs = .ofNat (since startedAt task.log)
  past : since startedAt task.log ≤ task.clock
  timed : AtEach (Timed booted startedAt) task.log

theorem Watched.lost_iff (watched : Watched booted startedAt task) :
    task.status.sensorOk = false ↔ Lost booted (sensorLog task.log) := by
  refine ⟨fun down => (watched.down down).1, fun lost => ?_⟩
  cases up : task.status.sensorOk with
  | false => rfl
  | true =>
      obtain ⟨front, count, split, settled, few, -⟩ := watched.up up
      exact absurd (split ▸ lost) (not_lost_of_settled settled few)

/-- A pass that asked the sensor nothing. -/
theorem Watched.unheard (watched : Watched booted startedAt task) (event : ScanEvent)
    (silent : sensorEvent event = none) (unmarked : mark event = none) {clock : Nat}
    (later : task.clock ≤ clock) (timed : Timed booted startedAt task.log event)
    {status : TerminalStatus} (sensorOk : status.sensorOk = task.status.sensorOk)
    (commErrors : status.commErrors = task.status.commErrors)
    (failedProbes : status.failedProbes = task.status.failedProbes)
    {lastSlot : UInt16} {lastSlotAtMs : UInt32} {told : List UInt8} :
    Watched booted startedAt
      ⟨status, clock, task.lastProbeMs, lastSlot, lastSlotAtMs, told, task.log ++ [event]⟩ := by
  have same : sensorLog (task.log ++ [event]) = sensorLog task.log := by
    simp [sensorLog_concat, silent]
  have kept : since startedAt (task.log ++ [event]) = since startedAt task.log := by
    simp [since_concat, unmarked]
  have counted : failures (task.log ++ [event]) = failures task.log := by
    rw [failures, same, failures]
  constructor
  · rw [same, sensorOk, commErrors]
    exact watched.up
  · rw [same, sensorOk, commErrors, failedProbes, counted]
    exact watched.down
  · rw [kept]
    exact watched.marked
  · rw [kept]
    exact watched.past.trans later
  · exact watched.timed.concat timed

theorem Watched.replied (watched : Watched booted startedAt task)
    (up : task.status.sensorOk = true) {clock : Nat} (later : task.clock ≤ clock) :
    Watched booted startedAt { task with
      clock := clock, status := task.status.noteSensorReplied, log := task.log ++ [.replied] } := by
  have kept : since startedAt (task.log ++ [.replied]) = since startedAt task.log :=
    since_concat _ _
  constructor
  · intro _
    have settled : Settled booted (sensorLog (task.log ++ [.replied])) := by
      rw [sensorLog_concat]
      exact Or.inr ⟨sensorLog task.log, .replied, rfl, Or.inl rfl⟩
    exact ⟨_, 0, (List.append_nil _).symm, settled, by decide, rfl⟩
  · intro down
    exact absurd (up.symm.trans down) (by decide)
  · rw [kept]
    exact watched.marked
  · rw [kept]
    exact watched.past.trans later
  · refine watched.timed.concat fun lost => ?_
    exact absurd (up.symm.trans (watched.lost_iff.mpr lost)) (by decide)

/-- The step of a count of errors, the fifth included. -/
theorem noteSensorCommError_spec {status : TerminalStatus} {count : Nat}
    (up : status.sensorOk = true) (counted : status.commErrors.toNat = count) (few : count < 5) :
    count + 1 < 5 ∧ status.noteSensorCommError =
        (false, { status with commErrors := status.commErrors + 1 }) ∧
        (status.commErrors + 1).toNat = count + 1 ∨
      count + 1 = 5 ∧ status.noteSensorCommError =
        (true, { status with sensorOk := false, commErrors := 0, failedProbes := 0 }) := by
  have next : (status.commErrors + 1).toNat = count + 1 := by
    rw [UInt8.toNat_add, counted]
    exact Nat.mod_eq_of_lt (by simp; omega)
  have fifth : status.commErrors + 1 < kSensorLostAfter ↔ count + 1 < 5 := by
    rw [UInt8.lt_iff_toNat_lt, next]
    rfl
  simp only [TerminalStatus.noteSensorCommError, up, Bool.not_true, Bool.false_eq_true, if_false]
  by_cases more : count + 1 < 5
  · rw [if_pos (fifth.mpr more)]
    exact Or.inl ⟨more, by simp, next⟩
  · rw [if_neg (fifth.not.mpr more)]
    exact Or.inr ⟨by omega, by simp⟩

theorem Watched.failed (watched : Watched booted startedAt task)
    (up : task.status.sensorOk = true) {time clock : Nat} (after : task.clock ≤ time)
    (later : time ≤ clock) :
    Watched booted startedAt { task with
      clock := clock
      status := task.status.noteSensorCommError.2
      lastProbeMs := if task.status.noteSensorCommError.1 then .ofNat time else task.lastProbeMs
      log := task.log ++ [.error time task.status.noteSensorCommError.1] } := by
  obtain ⟨front, count, split, settled, few, counted⟩ := watched.up up
  have heard (lost : Bool) : sensorLog (task.log ++ [.error time lost]) =
      front ++ List.replicate (count + 1) .error := by
    rw [sensorLog_concat, split, List.replicate_succ', List.append_assoc]
    rfl
  have before : ¬ Lost booted (sensorLog task.log) := by
    rw [split]
    exact not_lost_of_settled settled few
  have after' : sensorLog task.log ++ [.error] = front ++ List.replicate (count + 1) .error := by
    rw [split, List.replicate_succ', List.append_assoc]
  obtain ⟨more, same, next⟩ | ⟨fifth, same⟩ := noteSensorCommError_spec up counted few
  · rw [same]
    have kept : since startedAt (task.log ++ [.error time false]) = since startedAt task.log :=
      since_concat _ _
    constructor
    · exact fun _ => ⟨front, count + 1, heard false, settled, more, next⟩
    · exact fun down => absurd (up.symm.trans down) (by decide)
    · rw [kept]
      exact watched.marked
    · rw [kept]
      exact watched.past.trans (after.trans later)
    · refine watched.timed.concat ⟨before, iff_of_false Bool.false_ne_true ?_⟩
      rw [after']
      exact not_lost_of_settled settled more
  · rw [same]
    have lost : Lost booted (front ++ List.replicate (count + 1) .error) := by
      rw [fifth]
      exact lost_of_five front
    have moved : since startedAt (task.log ++ [.error time true]) = time := since_concat _ _
    constructor
    · exact nofun
    · intro _
      rw [heard, failures_error]
      exact ⟨lost, rfl, rfl⟩
    · rw [moved]
      rfl
    · rw [moved]
      exact later
    · refine watched.timed.concat ⟨before, iff_of_true rfl ?_⟩
      rw [after']
      exact lost

theorem Watched.due_iff (watched : Watched booted startedAt task)
    (down : task.status.sensorOk = false) {env : Env} (after : task.clock ≤ env.checkedAt) :
    task.Due env ↔ probeDelay task.log ≤ (env.checkedAt - since startedAt task.log) % 2 ^ 32 := by
  obtain ⟨-, -, counted⟩ := watched.down down
  rw [Due, ge_iff_le, UInt32.le_iff_toNat_le, TerminalStatus.sensorProbeDelayMs_eq counted,
    watched.marked, UInt32.toNat_sub, UInt32.toNat_ofNat', UInt32.toNat_ofNat', probeDelay]
  have past := watched.past
  omega

theorem noteSensorProbe_failed {status : TerminalStatus} {count : Nat}
    (counted : status.failedProbes.toNat = min count 31) :
    (status.noteSensorProbe false).failedProbes.toNat = min (count + 1) 31 ∧
      (status.noteSensorProbe false).sensorOk = status.sensorOk ∧
      (status.noteSensorProbe false).commErrors = status.commErrors := by
  simp only [TerminalStatus.noteSensorProbe, Bool.false_eq_true, if_false]
  by_cases more : status.failedProbes < 31
  · rw [if_pos more]
    refine ⟨?_, rfl, rfl⟩
    rw [UInt8.lt_iff_toNat_lt] at more
    rw [UInt8.toNat_add, counted]
    simp only [UInt8.toNat_ofNat] at *
    omega
  · rw [if_neg more]
    refine ⟨?_, rfl, rfl⟩
    rw [UInt8.lt_iff_toNat_lt] at more
    simp only [UInt8.toNat_ofNat] at *
    omega

theorem Watched.probed (watched : Watched booted startedAt task)
    (down : task.status.sensorOk = false) {env : Env} (due : task.Due env)
    (after : task.clock ≤ env.checkedAt) (later : env.notedAt ≤ env.matchedAt) :
    Watched booted startedAt { task with
      clock := env.matchedAt
      status := task.status.noteSensorProbe env.verified
      lastProbeMs := .ofNat env.notedAt
      log := task.log ++ [.probe env.checkedAt env.notedAt env.verified] } := by
  obtain ⟨lost, quiet, counted⟩ := watched.down down
  have moved : since startedAt
      (task.log ++ [.probe env.checkedAt env.notedAt env.verified]) = env.notedAt :=
    since_concat _ _
  have waited := (watched.due_iff down after).mp due
  have timed : Timed booted startedAt task.log
      (.probe env.checkedAt env.notedAt env.verified) :=
    ⟨lost, waited.trans (Nat.mod_le _ _)⟩
  cases answered : env.verified with
  | true =>
      rw [answered] at moved timed
      have settled : Settled booted
          (sensorLog (task.log ++ [.probe env.checkedAt env.notedAt true])) := by
        rw [sensorLog_concat]
        exact Or.inr ⟨sensorLog task.log, .goodProbe, rfl, Or.inr rfl⟩
      constructor
      · exact fun _ => ⟨_, 0, (List.append_nil _).symm, settled, by decide, rfl⟩
      · exact nofun
      · rw [moved]
      · rw [moved]
        exact later
      · exact watched.timed.concat timed
  | false =>
      rw [answered] at moved timed
      obtain ⟨failed, sensorOk, commErrors⟩ := noteSensorProbe_failed counted
      constructor
      · exact fun up => absurd (up.symm.trans (sensorOk.trans down)) (by decide)
      · intro _
        rw [failures_badProbe, sensorLog_concat]
        exact ⟨lost.probed, commErrors.trans quiet, failed⟩
      · rw [moved]
      · rw [moved]
        exact later
      · exact watched.timed.concat timed

theorem Watched.pass (watched : Watched booted startedAt task) {env : Env}
    (after : task.clock ≤ env.checkedAt) (noted : env.checkedAt ≤ env.notedAt)
    (later : env.notedAt ≤ env.matchedAt) : Watched booted startedAt (task.pass env) := by
  have kept : task.clock ≤ env.matchedAt := after.trans (noted.trans later)
  have heard (ready : task.status.state = .ready) := watched.replied
    (TerminalStatus.state_eq_ready.mp ready).2.1 kept
  have did := did_pass task env
  generalize task.pass env = next at did
  cases did with
  | waited down early =>
      refine watched.unheard _ rfl rfl kept ?_ rfl rfl rfl
      exact ⟨(watched.down down).1, Nat.lt_of_not_le ((watched.due_iff down after).not.mp early)⟩
  | probed down due => exact watched.probed down due after later
  | idle up unready =>
      exact ⟨watched.up, watched.down, watched.marked, watched.past.trans kept, watched.timed⟩
  | failed ready =>
      exact watched.failed (TerminalStatus.state_eq_ready.mp ready).2.1 (after.trans noted) later
  | replied ready => exact heard ready
  | denied ready => exact (heard ready).unheard .denied rfl rfl le_rfl trivial rfl rfl rfl
  | suppressed ready slot again =>
      exact (heard ready).unheard (.suppressed slot env.matchedAt) rfl rfl le_rfl trivial
        rfl rfl rfl
  | punched ready slot fresh =>
      refine (heard ready).unheard (.punch slot env.matchedAt env.persisted) rfl rfl le_rfl
        trivial ?_ ?_ ?_ <;> cases env.persisted <;> rfl

theorem Watched.step (watched : Watched booted startedAt task)
    (taken : task.step input = some next) : Watched booted startedAt next := by
  cases input with
  | pass env =>
      simp only [Task.step, Option.ite_none_right_eq_some, Option.some.injEq] at taken
      obtain ⟨⟨after, noted, later⟩, rfl⟩ := taken
      exact watched.pass after noted later
  | provisioned =>
      cases taken
      exact ⟨watched.up, watched.down, watched.marked, watched.past, watched.timed⟩

/-! ## Held off -/

def place : ScanEvent → Option (UInt16 × Nat)
  | .punch slot time _ => some (slot, time)
  | _ => none

/-- The slot and the time of the last punch; zeros before the first. -/
def lastPunch (log : List ScanEvent) : UInt16 × Nat := (log.filterMap place).getLast?.getD (0, 0)

def Soon (earlier : List ScanEvent) (slot : UInt16) (time : Nat) : Prop :=
  slot = (lastPunch earlier).1 ∧ (time - (lastPunch earlier).2) % 2 ^ 32 < 5000

def HeldOff (earlier : List ScanEvent) : ScanEvent → Prop
  | .suppressed slot time => Soon earlier slot time
  | .punch slot time _ => ¬ Soon earlier slot time ∧ (lastPunch earlier).2 ≤ time
  | _ => True

structure Debounced (task : Task) : Prop where
  slot : task.lastSlot = (lastPunch task.log).1
  time : task.lastSlotAtMs = .ofNat (lastPunch task.log).2
  past : (lastPunch task.log).2 ≤ task.clock
  held : AtEach HeldOff task.log

theorem lastPunch_concat (log : List ScanEvent) (event : ScanEvent) :
    lastPunch (log ++ [event]) = (place event).getD (lastPunch log) := by
  simp only [lastPunch, List.filterMap_append]
  cases placed : place event with
  | none => simp [placed]
  | some last => simp [placed]

/-- Whatever else happened after a punch. -/
theorem lastPunch_quiet {log between : List ScanEvent} {slot : UInt16} {time : Nat} {stored : Bool}
    (none : ∀ event ∈ between, event.isPunch = false) :
    lastPunch (log ++ .punch slot time stored :: between) = (slot, time) := by
  have unplaced : between.filterMap place = [] := by
    rw [List.filterMap_eq_nil_iff]
    intro event member
    have other := none event member
    cases event with
    | punch => contradiction
    | _ => rfl
  simp [lastPunch, List.filterMap_append, place, unplaced]

theorem Debounced.repeated_iff (debounced : task.Debounced) {slot : UInt16}
    (after : task.clock ≤ env.matchedAt) :
    task.Repeated env slot ↔ Soon task.log slot env.matchedAt := by
  have past := debounced.past
  rw [Repeated, Soon, debounced.slot, debounced.time, UInt32.lt_iff_toNat_lt, UInt32.toNat_sub,
    UInt32.toNat_ofNat', UInt32.toNat_ofNat', show kDebounceMs.toNat = 5000 from rfl]
  refine and_congr_right fun _ => ?_
  omega

theorem Debounced.unplaced (debounced : task.Debounced) (event : ScanEvent)
    (elsewhere : place event = none) (held : HeldOff task.log event) {clock : Nat}
    (later : task.clock ≤ clock) {status : TerminalStatus} {lastProbeMs : UInt32}
    {told : List UInt8} :
    Debounced ⟨status, clock, lastProbeMs, task.lastSlot, task.lastSlotAtMs, told,
      task.log ++ [event]⟩ := by
  have kept : lastPunch (task.log ++ [event]) = lastPunch task.log := by
    simp [lastPunch_concat, elsewhere]
  constructor
  · rw [kept]
    exact debounced.slot
  · rw [kept]
    exact debounced.time
  · rw [kept]
    exact debounced.past.trans later
  · exact debounced.held.concat held

theorem Debounced.punched (debounced : task.Debounced) {slot : UInt16} {time : Nat}
    {persisted : Bool} (fresh : ¬ Soon task.log slot time) (after : task.clock ≤ time)
    {status : TerminalStatus} {lastProbeMs : UInt32} {told : List UInt8} :
    Debounced ⟨status, time, lastProbeMs, slot, .ofNat time, told,
      task.log ++ [.punch slot time persisted]⟩ := by
  have moved : lastPunch (task.log ++ [.punch slot time persisted]) = (slot, time) :=
    lastPunch_concat _ _
  constructor
  · rw [moved]
  · rw [moved]
  · rw [moved]
  · exact debounced.held.concat ⟨fresh, debounced.past.trans after⟩

theorem Debounced.pass (debounced : task.Debounced) {env : Env}
    (after : task.clock ≤ env.matchedAt) : (task.pass env).Debounced := by
  have heard : Debounced { task with
      clock := env.matchedAt, status := task.status.noteSensorReplied
      log := task.log ++ [.replied] } := debounced.unplaced .replied rfl trivial after
  have did := did_pass task env
  generalize task.pass env = next at did
  cases did with
  | waited down early => exact debounced.unplaced (.waited _) rfl trivial after
  | probed down due => exact debounced.unplaced (.probe ..) rfl trivial after
  | idle up unready =>
      exact ⟨debounced.slot, debounced.time, debounced.past.trans after, debounced.held⟩
  | failed ready => exact debounced.unplaced (.error ..) rfl trivial after
  | replied ready => exact heard
  | denied ready => exact heard.unplaced .denied rfl trivial le_rfl
  | suppressed ready slot again =>
      have soon := (heard.repeated_iff le_rfl).mp again
      exact heard.unplaced (.suppressed ..) rfl soon le_rfl
  | punched ready slot fresh =>
      have late := (heard.repeated_iff le_rfl).not.mp fresh
      exact heard.punched late le_rfl

theorem Debounced.step (debounced : task.Debounced) (taken : task.step input = some next) :
    next.Debounced := by
  cases input with
  | pass env =>
      simp only [Task.step, Option.ite_none_right_eq_some, Option.some.injEq] at taken
      obtain ⟨⟨after, noted, later⟩, rfl⟩ := taken
      exact debounced.pass (after.trans (noted.trans later))
  | provisioned =>
      cases taken
      exact ⟨debounced.slot, debounced.time, debounced.past, debounced.held⟩

/-! ## Whole runs -/

variable {inputs : List Input}

theorem honest_setup (sensor buffer provisioned : Bool) (startedAt : Nat) :
    (setup sensor buffer provisioned startedAt).Honest buffer where
  running := rfl
  told := List.nil_sublist _
  latched := List.Pairwise.nil
  stopped good := by
    cases buffer with
    | true => exact ⟨rfl, by simp [setup]⟩
    | false => contradiction
  opened := by simp [setup]

theorem watched_setup (sensor buffer provisioned : Bool) (startedAt : Nat) :
    Watched sensor startedAt (setup sensor buffer provisioned startedAt) where
  up ok := ⟨[], 0, rfl, Or.inl ⟨rfl, ok⟩, by decide, rfl⟩
  down lost := by
    refine ⟨⟨[], [], rfl, by simp, Or.inl ⟨rfl, lost⟩⟩, rfl, ?_⟩
    cases sensor <;> rfl
  marked := rfl
  past := le_rfl
  timed := atEach_nil

theorem debounced_setup (sensor buffer provisioned : Bool) (startedAt : Nat) :
    (setup sensor buffer provisioned startedAt).Debounced :=
  ⟨rfl, rfl, Nat.zero_le _, atEach_nil⟩

theorem provisioned_pass (task : Task) (env : Env) :
    (task.pass env).status.provisioned = task.status.provisioned := by
  have did := did_pass task env
  generalize task.pass env = next at did
  cases did with
  | probed down due => exact (task.status.sameElse_probe _).provisioned
  | failed ready => exact task.status.sameElse_commError.provisioned
  | punched ready slot fresh => cases env.persisted <;> rfl
  | _ => rfl

theorem mem_of_concat {log : List ScanEvent} {event last : ScanEvent}
    (quiet : last.isPunch = false) (member : event ∈ log ++ [last])
    (punch : event.isPunch = true) : event ∈ log := by
  obtain old | same := List.mem_append.mp member
  · exact old
  · rw [List.mem_singleton.mp same, quiet] at punch
    cases punch

theorem punch_pass {event : ScanEvent} (member : event ∈ (task.pass env).log)
    (punch : event.isPunch = true) : event ∈ task.log ∨ task.status.provisioned = true := by
  have did := did_pass task env
  generalize task.pass env = next at did member
  cases did with
  | punched ready slot fresh => exact Or.inr (TerminalStatus.state_eq_ready.mp ready).2.2.2
  | idle up unready => exact Or.inl member
  | waited down early => exact Or.inl (mem_of_concat rfl member punch)
  | probed down due => exact Or.inl (mem_of_concat rfl member punch)
  | failed ready => exact Or.inl (mem_of_concat rfl member punch)
  | replied ready => exact Or.inl (mem_of_concat rfl member punch)
  | denied ready => exact Or.inl (mem_of_concat rfl (mem_of_concat rfl member punch) punch)
  | suppressed ready slot again =>
      exact Or.inl (mem_of_concat rfl (mem_of_concat rfl member punch) punch)

theorem step_pass (taken : task.step (.pass env) = some next) : next = task.pass env := by
  simp only [Task.step, Option.ite_none_right_eq_some, Option.some.injEq] at taken
  exact taken.2.symm

theorem run_provisioned (ran : run step task inputs = some final) :
    final.status.provisioned = true ↔ task.status.provisioned = true ∨ .provisioned ∈ inputs := by
  induction inputs generalizing task with
  | nil =>
      cases ran
      simp
  | cons input rest ih =>
      obtain ⟨next, taken, remaining⟩ := run_cons_invert ran
      rw [ih remaining]
      cases input with
      | pass env =>
          rw [step_pass taken, provisioned_pass]
          simp
      | provisioned =>
          cases taken
          simp [TerminalStatus.setProvisioned]

/-- A punch that is in the log was scanned with a device secret in hand. -/
theorem run_punch (ran : run step task inputs = some final) {event : ScanEvent}
    (member : event ∈ final.log) (punch : event.isPunch = true) :
    event ∈ task.log ∨ task.status.provisioned = true ∨ .provisioned ∈ inputs := by
  induction inputs generalizing task with
  | nil =>
      cases ran
      exact Or.inl member
  | cons input rest ih =>
      obtain ⟨next, taken, remaining⟩ := run_cons_invert ran
      have later := ih remaining
      cases input with
      | pass env =>
          rw [step_pass taken, provisioned_pass] at later
          obtain old | ready | noted := later
          · exact (punch_pass old punch).imp_right Or.inl
          · exact Or.inr (Or.inl ready)
          · exact Or.inr (Or.inr (List.mem_cons_of_mem _ noted))
      | provisioned => exact Or.inr (Or.inr List.mem_cons_self)

theorem green_means_stored (sensor buffer provisioned : Bool) (startedAt : Nat)
    (ran : run step (setup sensor buffer provisioned startedAt) inputs = some final) :
    final.told.Sublist (final.log.filterMap ScanEvent.verdict) ∧
      final.log.Pairwise Latches ∧
      (∀ event ∈ final.log, event.isDropped = true → final.status.state = .fault) ∧
      ∀ event ∈ final.log, event.isPunch = true →
        buffer = true ∧ (provisioned = true ∨ .provisioned ∈ inputs) := by
  have honest : final.Honest buffer := run_invariant
    (fun state input next holds taken => Honest.step holds taken)
    (honest_setup sensor buffer provisioned startedAt) ran
  refine ⟨honest.told, honest.latched, fun event member dropped => ?_, fun event member punch => ?_⟩
  · refine TerminalStatus.state_eq_fault.mpr ⟨honest.running, Or.inr ?_⟩
    by_contra good
    obtain ⟨-, none⟩ := honest.stopped (by simpa using good)
    exact absurd ((none event member).symm.trans dropped) (by decide)
  · refine ⟨honest.opened event member punch, ?_⟩
    obtain old | known := run_punch ran member punch
    · cases old
    · exact known

def finger (slot : Option UInt16) (time : Nat) (persisted : Bool) : Input :=
  .pass ⟨time, time, time, true, .ok, true, slot, persisted, true⟩

def garbled (time : Nat) : Input :=
  .pass ⟨time, time, time, false, .packetError, false, none, false, true⟩

/-- A punch, the finger left on, a stranger, and a punch that could not be written. -/
theorem green_means_stored_three : ∃ final,
    run step (setup true true false 100) [.provisioned, finger (some 7) 1000 true,
      finger (some 7) 2000 true, finger none 3000 true, finger (some 7) 6500 false,
      finger (some 8) 8000 true] = some final ∧ final.told = [1, 0, 2] ∧
    final.status.state = .fault :=
  have ran : run step (setup true true false 100) [.provisioned, finger (some 7) 1000 true,
      finger (some 7) 2000 true, finger none 3000 true, finger (some 7) 6500 false,
      finger (some 8) 8000 true] = some _ := rfl
  ⟨_, ran, rfl, (green_means_stored true true false 100 ran).2.2.1 (.punch 7 6500 false)
    (by decide) rfl⟩

theorem sensor_watched (sensor buffer provisioned : Bool) (startedAt : Nat)
    (ran : run step (setup sensor buffer provisioned startedAt) inputs = some final) :
    (final.status.sensorOk = false ↔ Lost sensor (sensorLog final.log)) ∧
      AtEach (Timed sensor startedAt) final.log := by
  have watched : Watched sensor startedAt final := run_invariant
    (fun state input next holds taken => Watched.step holds taken)
    (watched_setup sensor buffer provisioned startedAt) ran
  exact ⟨watched.lost_iff, watched.timed⟩

/-- Five errors, one probe without an answer and one with, two and four seconds later. -/
theorem sensor_watched_seven : ∃ final,
    run step (setup true true true 0) [garbled 10, garbled 20, garbled 30, garbled 40, garbled 50,
      garbled 2049, garbled 2050, garbled 6049, finger none 6050 true] = some final ∧
    final.log.map sensorEvent = [some .error, some .error, some .error, some .error, some .error,
      none, some .badProbe, none, some .goodProbe] ∧
    ¬ Lost true (sensorLog final.log) :=
  have ran : run step (setup true true true 0) [garbled 10, garbled 20, garbled 30, garbled 40,
      garbled 50, garbled 2049, garbled 2050, garbled 6049, finger none 6050 true] = some _ := rfl
  ⟨_, ran, rfl, (sensor_watched true true true 0 ran).1.not.mp (by decide)⟩

/-- Between two punches of one slot, with no other between them, five seconds pass. -/
theorem held_off (sensor buffer provisioned : Bool) (startedAt : Nat)
    (ran : run step (setup sensor buffer provisioned startedAt) inputs = some final) :
    AtEach HeldOff final.log ∧
      ∀ earlier slot first stored between second stored' later,
        final.log = earlier ++ .punch slot first stored :: between ++
          .punch slot second stored' :: later →
        (∀ event ∈ between, event.isPunch = false) → first + 5000 ≤ second := by
  have debounced : final.Debounced := run_invariant
    (fun state input next holds taken => Debounced.step holds taken)
    (debounced_setup sensor buffer provisioned startedAt) ran
  refine ⟨debounced.held, ?_⟩
  intro earlier slot first stored between second stored' later split none
  obtain ⟨fresh, past⟩ := debounced.held _ _ _ split
  have last : lastPunch (earlier ++ .punch slot first stored :: between) = (slot, first) :=
    lastPunch_quiet none
  rw [last] at past
  rw [Soon, last] at fresh
  have order : first ≤ second := past
  have late : ¬ (second - first) % 2 ^ 32 < 5000 := fun soon => fresh ⟨rfl, soon⟩
  have less := Nat.mod_le (second - first) (2 ^ 32)
  omega

theorem held_off_pair : ∃ final,
    run step (setup true true true 0) [finger (some 3) 9000 true, finger (some 3) 13999 true,
      finger (some 3) 14000 true] = some final ∧ HeldOff [.replied, .punch 3 9000 true, .replied]
        (.suppressed 3 13999) ∧ (9000 + 5000 ≤ 14000) :=
  have ran : run step (setup true true true 0) [finger (some 3) 9000 true,
      finger (some 3) 13999 true, finger (some 3) 14000 true] = some _ := rfl
  ⟨_, ran, (held_off true true true 0 ran).1 _ _ _ rfl,
    (held_off true true true 0 ran).2 [.replied] 3 9000 true
      [.replied, .suppressed 3 13999, .replied] 14000 true [] rfl (by decide)⟩

end Task

end Presence.Firmware.Scan
