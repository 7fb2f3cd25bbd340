import Presence.Data.Machine
import Presence.Data.Run
import Presence.Firmware.AckText

namespace Presence.Firmware.NetLoop

open Presence.Data

/-! # The network loop

`netTask` of `main.cpp`, one pass after the other.  What a pass meets is its input:
whether there is a network, what the gateway answers and after how many milliseconds,
what is in the buffer.  A pass gives back the calls it made and when.
-/

def kHeartbeatMs : UInt32 := 60000
def kFlushMs : UInt32 := 30000
def kMaxBatch : Nat := 50
def kBackoffMinMs : UInt32 := 5000
def kBackoffMaxMs : UInt32 := 300000

inductive Call where
  | heartbeat
  | flush
  | firmware
deriving DecidableEq

structure Made where
  call : Call
  time : Nat
deriving DecidableEq

/-- What the gateway answers to a call, so many milliseconds later. -/
structure Answer where
  code : Int
  resp : List UInt8
  ms : Nat

structure Loop where
  /-- Milliseconds since the boot. -/
  clock : Nat
  lastHeartbeat : UInt32
  lastFlush : UInt32
  backoffMs : UInt32
  firmwareAvailable : Bool

/-- A pass with a network and a device secret. -/
structure Online where
  heartbeat : Answer
  confirmMs : Nat
  depth : Nat
  /-- How many records `peek` finds. -/
  pending : Nat
  flush : Answer
  checkMs : Nat
  /-- `checkFirmware` found that there is nothing to take. -/
  cleared : Bool
  random : UInt32
  overslept : Nat

inductive Pass where
  | portal (ms : Nat)
  | offline (msUntilDue random : UInt32) (overslept : Nat)
  | unprovisioned (provisioned : Bool) (ms : Nat) (random : UInt32) (overslept : Nat)
  | online (env : Online)

def parseJsonBool (json key : List UInt8) : Option Bool :=
  match jsonValueStart (cString json) key with
  | none => none
  | some value =>
      if (ascii "true").isPrefixOf value then some true
      else if (ascii "false").isPrefixOf value then some false
      else none

namespace Loop

def millis (loop : Loop) : UInt32 := .ofNat loop.clock

def resetBackoff (loop : Loop) : Loop := { loop with backoffMs := kBackoffMinMs }

def growBackoff (loop : Loop) (random : UInt32) : Loop :=
  let doubled := loop.backoffMs * 2
  let grown := if kBackoffMaxMs < doubled then kBackoffMaxMs else doubled
  { loop with backoffMs := grown + random % (grown / 4 + 1) }

/-- At least so long. -/
def netSleep (loop : Loop) (ms : UInt32) (overslept : Nat) : Loop :=
  { loop with clock := loop.clock + ms.toNat + overslept }

def sendHeartbeat (loop : Loop) (answer : Answer) : Bool × Loop :=
  let loop := { loop with clock := loop.clock + answer.ms }
  if answer.code ≠ 200 then (false, loop)
  else
    let loop :=
      match parseJsonInt answer.resp (ascii "backoff_s") with
      | some v => if v > 0 then { loop with backoffMs := UInt32.ofInt v * 1000 } else loop
      | none => loop
    match parseJsonBool answer.resp (ascii "firmware_available") with
    | some firmware => (true, { loop with firmwareAvailable := firmware })
    | none => (true, loop)

/-- Nothing is called when there is nothing to send. -/
def flushEvents (loop : Loop) (pending : Nat) (answer : Answer) : Bool × Loop :=
  if pending = 0 then (true, loop)
  else (answer.code = 200 ∧ 0 ≤ parseAckThrough answer.resp, { loop with clock := loop.clock + answer.ms })

def checkFirmware (loop : Loop) (ms : Nat) (cleared : Bool) : Loop :=
  { loop with
    clock := loop.clock + ms
    firmwareAvailable := loop.firmwareAvailable && !cleared }

def heartbeatDue (loop : Loop) : Bool := decide (loop.millis - loop.lastHeartbeat > kHeartbeatMs)

def flushDue (loop : Loop) (now : UInt32) (depth : Nat) : Bool :=
  decide (now - loop.lastFlush > kFlushMs ∨ depth ≥ kMaxBatch)

end Loop

/-- The local variables of a pass. -/
structure Progress where
  loop : Loop
  ok : Bool
  otaDue : Bool
  calls : List Made

namespace Progress

def heartbeat (progress : Progress) (env : Online) : Progress :=
  let loop := progress.loop
  if loop.heartbeatDue then
    let now := loop.millis
    let (heartbeat, after) := loop.sendHeartbeat env.heartbeat
    let after := if heartbeat then { after with clock := after.clock + env.confirmMs } else after
    { loop := { after with lastHeartbeat := now }
      ok := heartbeat && progress.ok
      otaDue := after.firmwareAvailable
      calls := progress.calls ++ [⟨.heartbeat, loop.clock⟩] }
  else progress

def flush (progress : Progress) (now : UInt32) (env : Online) : Progress :=
  let loop := progress.loop
  if loop.flushDue now env.depth then
    let (flushed, after) := loop.flushEvents env.pending env.flush
    { progress with
      loop := { after with lastFlush := now }
      ok := flushed && progress.ok
      calls := progress.calls ++ if env.pending = 0 then [] else [⟨.flush, loop.clock⟩] }
  else progress

def check (progress : Progress) (env : Online) : Progress :=
  if progress.otaDue then
    { progress with
      loop := progress.loop.checkFirmware env.checkMs env.cleared
      calls := progress.calls ++ [⟨.firmware, progress.loop.clock⟩] }
  else progress

/-- The end of a pass. -/
def rest (progress : Progress) (env : Online) : Loop :=
  if progress.ok then progress.loop.resetBackoff.netSleep 1000 env.overslept
  else
    let loop := progress.loop.growBackoff env.random
    loop.netSleep loop.backoffMs env.overslept

end Progress

namespace Loop

def start (loop : Loop) : Progress := ⟨loop, true, false, []⟩

/-- With the heartbeat done, if one was due. -/
def afterHeartbeat (loop : Loop) (env : Online) : Progress := loop.start.heartbeat env

def afterFlush (loop : Loop) (env : Online) : Progress :=
  (loop.afterHeartbeat env).flush loop.millis env

def pass (loop : Loop) : Pass → Loop × List Made
  | .portal ms => ({ loop with clock := loop.clock + ms }.resetBackoff, [])
  | .offline msUntilDue random overslept =>
      let shorter := if msUntilDue < loop.backoffMs then msUntilDue else loop.backoffMs
      let sleep := if shorter < 1000 then 1000 else shorter
      ((loop.netSleep sleep overslept).growBackoff random, [])
  | .unprovisioned provisioned ms random overslept =>
      let after := { loop with clock := loop.clock + ms }
      if provisioned then (after.resetBackoff.netSleep 1000 overslept, [])
      else
        let after := after.growBackoff random
        (after.netSleep after.backoffMs overslept, [])
  | .online env =>
      let progress := (loop.afterFlush env).check env
      (progress.rest env, progress.calls)

end Loop

/-! ## The delay the gateway asks for -/

/-- The heartbeat of the pass is answered with `backoff_s`. -/
structure Asks (loop : Loop) (env : Online) (seconds : Nat) : Prop where
  due : loop.heartbeatDue = true
  accepted : env.heartbeat.code = 200
  asked : parseJsonInt env.heartbeat.resp (ascii "backoff_s") = some (seconds : Int)
  positive : 0 < seconds

def deadline (loop : Loop) (env : Online) (seconds : Nat) : Nat :=
  loop.clock + env.heartbeat.ms + 1000 * seconds

/-- The calls of the pass after its heartbeat, and those of the passes that follow. -/
def laterCalls (loop : Loop) (env : Online) (following : List Pass) : List Made :=
  (loop.pass (.online env)).2.tail ++
    (answers Loop.pass (loop.pass (.online env)).1 following).flatten

def Honoured (loop : Loop) (env : Online) (following : List Pass) (seconds : Nat) : Prop :=
  ∀ made ∈ laterCalls loop env following, deadline loop env seconds ≤ made.time

/-- Neither a flush nor a look for firmware is due before the deadline when the pass
comes to it; a flush with nothing to send is none. -/
structure Idle (limit : Nat) (loop : Loop) (env : Online) : Prop where
  flush : (loop.afterHeartbeat env).loop.flushDue loop.millis env.depth = true → 0 < env.pending →
    limit ≤ (loop.afterHeartbeat env).loop.clock
  firmware : (loop.afterHeartbeat env).otaDue = true → limit ≤ (loop.afterFlush env).loop.clock

/-- Nothing is due before the deadline. -/
def Quiet (limit : Nat) (loop : Loop) : Pass → Prop
  | .online env => (loop.heartbeatDue = true → limit ≤ loop.clock) ∧ Idle limit loop env
  | _ => True

/-- Nothing is due in any of the passes, each taken where the one before left off. -/
def QuietAlong (limit : Nat) : Loop → List Pass → Prop
  | _, [] => True
  | loop, input :: following => Quiet limit loop input ∧ QuietAlong limit (loop.pass input).1 following

/-! ## What a pass calls -/

section

variable (loop : Loop) (env : Online) (limit : Nat)

theorem heartbeat_calls :
    (loop.afterHeartbeat env).calls =
      if loop.heartbeatDue then [⟨.heartbeat, loop.clock⟩] else [] := by
  cases due : loop.heartbeatDue with
  | true => simp [Loop.afterHeartbeat, Progress.heartbeat, Loop.start, due]
  | false => simp [Loop.afterHeartbeat, Progress.heartbeat, Loop.start, due]

theorem flush_calls :
    (loop.afterFlush env).calls = (loop.afterHeartbeat env).calls ++
      if (loop.afterHeartbeat env).loop.flushDue loop.millis env.depth = true ∧ 0 < env.pending then
        [⟨.flush, (loop.afterHeartbeat env).loop.clock⟩]
      else [] := by
  simp only [Loop.afterFlush, Progress.flush]
  by_cases due : (loop.afterHeartbeat env).loop.flushDue loop.millis env.depth = true
  · by_cases pending : env.pending = 0
    · simp [due, pending]
    · simp [due, pending, Nat.pos_of_ne_zero pending]
  · simp [due]

theorem flush_otaDue : (loop.afterFlush env).otaDue = (loop.afterHeartbeat env).otaDue := by
  simp only [Loop.afterFlush, Progress.flush]
  split <;> rfl

theorem pass_calls :
    (loop.pass (.online env)).2 = (loop.afterFlush env).calls ++
      if (loop.afterHeartbeat env).otaDue then [⟨.firmware, (loop.afterFlush env).loop.clock⟩]
      else [] := by
  simp only [Loop.pass, Progress.check, ← flush_otaDue]
  split
  case isTrue => rfl
  case isFalse => rw [List.append_nil]

/-- What comes after the heartbeat of a pass. -/
def afterwards : List Made :=
  (if (loop.afterHeartbeat env).loop.flushDue loop.millis env.depth = true ∧ 0 < env.pending then
    [⟨.flush, (loop.afterHeartbeat env).loop.clock⟩]
  else []) ++
    if (loop.afterHeartbeat env).otaDue then [⟨.firmware, (loop.afterFlush env).loop.clock⟩] else []

theorem pass_calls_eq :
    (loop.pass (.online env)).2 =
      (if loop.heartbeatDue then [⟨.heartbeat, loop.clock⟩] else []) ++ afterwards loop env := by
  rw [pass_calls, flush_calls, heartbeat_calls, List.append_assoc]
  rfl

theorem late_of_ite (due : Prop) [Decidable due] (call : Call) (time : Nat) :
    (∀ made ∈ if due then [(⟨call, time⟩ : Made)] else [], limit ≤ made.time) ↔
      (due → limit ≤ time) := by
  split
  case isTrue met => simp [met]
  case isFalse unmet => simp [unmet]

theorem afterwards_late_iff :
    (∀ made ∈ afterwards loop env, limit ≤ made.time) ↔ Idle limit loop env := by
  rw [afterwards, List.forall_mem_append, late_of_ite, late_of_ite, and_imp]
  exact ⟨fun late => ⟨late.1, late.2⟩, fun idle => ⟨idle.flush, idle.firmware⟩⟩

theorem quiet_iff (input : Pass) :
    (∀ made ∈ (loop.pass input).2, limit ≤ made.time) ↔ Quiet limit loop input := by
  cases input with
  | portal ms => simp [Loop.pass, Quiet]
  | offline msUntilDue random overslept => simp [Loop.pass, Quiet]
  | unprovisioned provisioned ms random overslept =>
      cases provisioned <;> simp [Loop.pass, Quiet]
  | online env =>
      rw [pass_calls_eq, List.forall_mem_append, late_of_ite, afterwards_late_iff]
      rfl

theorem quietAlong_iff (following : List Pass) :
    (∀ made ∈ (answers Loop.pass loop following).flatten, limit ≤ made.time) ↔
      QuietAlong limit loop following := by
  induction following generalizing loop with
  | nil => simp [answers, QuietAlong]
  | cons input following ih =>
      rw [answers, List.flatten_cons, List.forall_mem_append, quiet_iff, ih, QuietAlong]

end

/-! ## What becomes of the delay -/

/-- It is noted. -/
theorem asked_backoff {loop : Loop} {env : Online} {seconds : Nat} (asks : Asks loop env seconds)
    (fits : seconds * 1000 < 2 ^ 32) :
    (loop.afterHeartbeat env).loop.backoffMs.toNat = seconds * 1000 := by
  obtain ⟨due, accepted, asked, positive⟩ := asks
  have more : (seconds : Int) > 0 := by omega
  have noted : (loop.afterHeartbeat env).loop.backoffMs = UInt32.ofInt seconds * 1000 := by
    simp only [Loop.afterHeartbeat, Progress.heartbeat, Loop.start, due, if_true,
      Loop.sendHeartbeat, accepted, ne_eq, not_true_eq_false, if_false, asked, more]
    cases parseJsonBool env.heartbeat.resp (ascii "firmware_available") <;> rfl
  have small : (UInt32.ofInt (seconds : Int)).toNat = seconds := by
    rw [UInt32.ofInt, UInt32.toNat_ofNat']
    omega
  rw [noted, UInt32.toNat_mul, small]
  exact Nat.mod_eq_of_lt fits

/-- A pass that goes well forgets it, and sleeps for a second. -/
theorem backoff_forgotten {loop : Loop} {env : Online}
    (well : ((loop.afterFlush env).check env).ok = true) :
    (loop.pass (.online env)).1.backoffMs = kBackoffMinMs ∧
      (loop.pass (.online env)).1.clock =
        ((loop.afterFlush env).check env).loop.clock + 1000 + env.overslept := by
  simp only [Loop.pass, Progress.rest, well, if_true]
  exact ⟨rfl, rfl⟩

/-- The delay a heartbeat is answered with is kept if and only if nothing comes due in it:
in the same pass no flush with records to send and no look for firmware, and in the
passes that follow none of these and no heartbeat. -/
theorem backoff_honoured_iff {loop : Loop} {env : Online} {seconds : Nat} (following : List Pass)
    (asks : Asks loop env seconds) :
    Honoured loop env following seconds ↔
      Idle (deadline loop env seconds) loop env ∧
        QuietAlong (deadline loop env seconds) (loop.pass (.online env)).1 following := by
  have first : (loop.pass (.online env)).2.tail = afterwards loop env := by
    rw [pass_calls_eq, if_pos asks.due]
    rfl
  rw [Honoured, laterCalls, first, List.forall_mem_append, afterwards_late_iff, quietAlong_iff]

/-- An answer that asks for two minutes, and a record to send. -/
def askingAnswer : Answer := ⟨200, ascii "\x7b\"backoff_s\":120\x7d", 40⟩

def askingPass : Online := ⟨askingAnswer, 0, 1, 1, ⟨200, ascii "\x7b\x7d", 40⟩, 0, false, 0, 0⟩

/-- The first pass a minute after the boot. -/
def minuteOld : Loop := ⟨60001, 0, 0, 5000, false⟩

/-- The flush follows at once. -/
theorem backoff_ignored :
    (minuteOld.pass (.online askingPass)).2 = [⟨.heartbeat, 60001⟩, ⟨.flush, 60041⟩] ∧
      ¬ ∀ (loop : Loop) (env : Online) (following : List Pass) (seconds : Nat),
        Asks loop env seconds → seconds * 1000 < 2 ^ 32 → Honoured loop env following seconds := by
  have calls : (minuteOld.pass (.online askingPass)).2 = [⟨.heartbeat, 60001⟩, ⟨.flush, 60041⟩] := by
    decide +kernel
  refine ⟨calls, fun all => ?_⟩
  have asks : Asks minuteOld askingPass 120 :=
    ⟨by decide +kernel, rfl, by decide +kernel, by decide⟩
  have flush : (⟨.flush, 60041⟩ : Made) ∈ laterCalls minuteOld askingPass [] := by
    rw [laterCalls, calls]
    simp
  have late := all minuteOld askingPass [] 120 asks (by decide) _ flush
  exact absurd late (by decide)

/-- With a flush a moment ago nothing is due, and a second is kept. -/
theorem backoff_honoured_iff_second :
    Honoured { minuteOld with lastFlush := 60000 }
      { askingPass with heartbeat := ⟨200, ascii "\x7b\"backoff_s\":1\x7d", 40⟩ } [] 1 := by
  have asks : Asks { minuteOld with lastFlush := 60000 }
      { askingPass with heartbeat := ⟨200, ascii "\x7b\"backoff_s\":1\x7d", 40⟩ } 1 :=
    ⟨by decide +kernel, rfl, by decide +kernel, by decide⟩
  refine (backoff_honoured_iff [] asks).mpr ⟨⟨fun due => ?_, fun due => ?_⟩, trivial⟩
  · exact absurd due (by decide +kernel)
  · exact absurd due (by decide +kernel)

end Presence.Firmware.NetLoop
