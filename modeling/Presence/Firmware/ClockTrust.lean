import Presence.Data.Run
import Presence.Firmware.PowerCut

namespace Presence.Firmware.ClockTrust

open Presence.Data

/-! # How far a timestamp can be trusted

The RTC, the trust flag and the offset of `main.cpp`, over boots, answers of the
gateway and lengths of time.  The time that has really passed and the moment of the
last correction are not part of the terminal; they are what `rtc_synced` is about.
-/

structure Stamped where
  record : PunchRecord
  capturedAt : Nat
  lastSync : Option Nat

structure Terminal where
  /-- What the RTC reads, in seconds. -/
  unixtime : Nat
  rtcTrusted : Bool
  rtcOffsetMs : Int
  /-- `rtc_offset` in NVS -/
  storedOffset : Option Int
  /-- Milliseconds that have passed. -/
  now : Nat
  /-- When the RTC was last set, or its offset corrected, from the gateway's clock. -/
  lastSync : Option Nat
  punches : List Stamped

inductive Event where
  | boot (answers lostPower : Bool)
  /-- An accepted heartbeat, with the `server_time_ms` found in the answer. -/
  | heartbeat (serverMs : Option Int)
  /-- A request answered 401, with the `server_time_ms` found in the answer. -/
  | unauthorized (serverMs : Option Int)
  | punch (record : PunchRecord)
  /-- So many milliseconds pass, in which the RTC counts so many seconds. -/
  | elapse (ms seconds : Nat)

namespace Terminal

def nowEpochMs (terminal : Terminal) : Int :=
  if terminal.rtcTrusted then terminal.unixtime * 1000 + terminal.rtcOffsetMs else 0

def timeSourceCode (terminal : Terminal) : UInt8 :=
  if terminal.rtcTrusted then
    if terminal.rtcOffsetMs = 0 then 0 else 1
  else 2

/-- `g_rtc.adjust`, given milliseconds. -/
def adjust (terminal : Terminal) (serverMs : Int) : Terminal :=
  { terminal with unixtime := ((serverMs.tdiv 1000) % 2 ^ 32).toNat }

def handleClockSkew (terminal : Terminal) (serverMs : Int) : Terminal :=
  let rtcMs : Int := terminal.unixtime * 1000
  let offset := serverMs - rtcMs
  let corrected :=
    { terminal with
      rtcOffsetMs := offset
      rtcTrusted := true
      storedOffset := some offset
      lastSync := some terminal.now }
  if offset > 60000 ∨ offset < -60000 then
    { corrected.adjust serverMs with rtcOffsetMs := 0, storedOffset := some 0 }
  else corrected

/-- First contact after a cold boot with a dead RTC. -/
def adoptClock (terminal : Terminal) (serverMs : Int) : Terminal :=
  { terminal.adjust serverMs with
    rtcOffsetMs := 0
    rtcTrusted := true
    lastSync := some terminal.now }

def stamp (terminal : Terminal) (record : PunchRecord) : PunchRecord :=
  { record with
    capturedEpochMs := .ofInt terminal.nowEpochMs
    timeSource := terminal.timeSourceCode }

def step (terminal : Terminal) : Event → Option Terminal
  | .boot answers lostPower =>
      some { terminal with
        rtcTrusted := answers && !lostPower
        rtcOffsetMs := terminal.storedOffset.getD 0 }
  | .heartbeat none => some terminal
  | .heartbeat (some serverMs) =>
      some (if terminal.rtcTrusted then terminal else terminal.adoptClock serverMs)
  -- a 401 without a clock is a real auth failure
  | .unauthorized none => some terminal
  | .unauthorized (some serverMs) => some (terminal.handleClockSkew serverMs)
  | .punch record =>
      some { terminal with
        punches := ⟨terminal.stamp record, terminal.now, terminal.lastSync⟩ :: terminal.punches }
  | .elapse ms seconds =>
      some { terminal with unixtime := terminal.unixtime + seconds, now := terminal.now + ms }

/-- A terminal out of the box: nothing in NVS, any time on the RTC. -/
def fresh (unixtime : Nat) : Terminal := ⟨unixtime, false, 0, none, 0, none, []⟩

end Terminal

def dayMs : Nat := 24 * 60 * 60 * 1000

/-- Within 24 hours of the last correction. -/
def Recent (now : Nat) (lastSync : Option Nat) : Prop :=
  ∃ sync ∈ lastSync, now ≤ sync + dayMs

/-- `rtc_synced` (0) means what the table says; the rest is `rtc_unsynced` (1) or
`uptime_only` (2). -/
def Stamped.Honest (punch : Stamped) : Prop :=
  (punch.record.timeSource = 0 → Recent punch.capturedAt punch.lastSync) ∧
    (¬ Recent punch.capturedAt punch.lastSync →
      punch.record.timeSource = 1 ∨ punch.record.timeSource = 2)

namespace Terminal

/-- A boot that trusts the RTC and finds no offset comes after the gateway has set that
RTC once, and a punch on a clock without offset no later than a day after it last did. -/
def SyncedInTime (terminal : Terminal) : Event → Prop
  | .boot answers lostPower =>
      answers = true → lostPower = false → terminal.storedOffset.getD 0 = 0 →
        terminal.lastSync.isSome = true
  | .punch _ =>
      terminal.rtcTrusted = true → terminal.rtcOffsetMs = 0 →
        ∀ sync ∈ terminal.lastSync, terminal.now ≤ sync + dayMs
  | _ => True

instance (terminal : Terminal) : (event : Event) → Decidable (terminal.SyncedInTime event)
  | .boot answers lostPower =>
      decidable_of_iff (¬ answers = true ∨ ¬ lostPower = false ∨
        ¬ terminal.storedOffset.getD 0 = 0 ∨ terminal.lastSync.isSome = true) (by
          simp only [SyncedInTime]
          tauto)
  | .punch _ =>
      decidable_of_iff (¬ terminal.rtcTrusted = true ∨ ¬ terminal.rtcOffsetMs = 0 ∨
        terminal.lastSync.all (fun sync => terminal.now ≤ sync + dayMs) = true) (by
          simp only [SyncedInTime, Option.all_eq_true, decide_eq_true_eq, Option.mem_def]
          tauto)
  | .heartbeat _ | .unauthorized _ | .elapse _ _ => .isTrue trivial

structure Sound (terminal : Terminal) : Prop where
  honest : ∀ punch ∈ terminal.punches, punch.Honest
  /-- A clock that counts as synced was synced at some time. -/
  synced : terminal.rtcTrusted = true → terminal.rtcOffsetMs = 0 → terminal.lastSync.isSome = true

variable {terminal next : Terminal}

theorem timeSourceCode_eq_zero :
    terminal.timeSourceCode = 0 ↔ terminal.rtcTrusted = true ∧ terminal.rtcOffsetMs = 0 := by
  simp only [timeSourceCode]
  split
  next trusted => split <;> simp_all
  next untrusted => simp_all

theorem timeSourceCode_cases :
    terminal.timeSourceCode = 0 ∨ terminal.timeSourceCode = 1 ∨ terminal.timeSourceCode = 2 := by
  simp only [timeSourceCode]
  split
  next => split <;> simp
  next => simp

theorem Sound.stamp (sound : terminal.Sound) (record : PunchRecord)
    (inTime : terminal.SyncedInTime (.punch record)) :
    Stamped.Honest ⟨terminal.stamp record, terminal.now, terminal.lastSync⟩ := by
  have recent : terminal.timeSourceCode = 0 → Recent terminal.now terminal.lastSync := by
    intro synced
    obtain ⟨trusted, zero⟩ := timeSourceCode_eq_zero.mp synced
    obtain ⟨sync, last⟩ := Option.isSome_iff_exists.mp (sound.synced trusted zero)
    exact ⟨sync, last, inTime trusted zero sync last⟩
  exact ⟨recent, fun stale => timeSourceCode_cases.resolve_left fun synced => stale (recent synced)⟩

theorem handleClockSkew_lastSync (serverMs : Int) :
    (terminal.handleClockSkew serverMs).lastSync = some terminal.now := by
  unfold handleClockSkew
  dsimp only
  split <;> rfl

theorem handleClockSkew_punches (serverMs : Int) :
    (terminal.handleClockSkew serverMs).punches = terminal.punches := by
  unfold handleClockSkew
  dsimp only
  split <;> rfl

theorem Sound.step (sound : terminal.Sound) {event : Event} (met : terminal.SyncedInTime event)
    (taken : terminal.step event = some next) : next.Sound := by
  cases event with
  | boot answers lostPower =>
      cases taken
      refine ⟨sound.honest, fun trusted zero => ?_⟩
      obtain ⟨answered, kept⟩ := Bool.and_eq_true_iff.mp trusted
      exact met answered (by simpa using kept) zero
  | heartbeat serverMs =>
      cases serverMs with
      | none =>
          cases taken
          exact sound
      | some serverMs =>
          cases taken
          split
          next => exact sound
          next => exact ⟨sound.honest, fun _ _ => rfl⟩
  | unauthorized serverMs =>
      cases serverMs with
      | none =>
          cases taken
          exact sound
      | some serverMs =>
          cases taken
          refine ⟨?_, fun _ _ => ?_⟩
          · rw [handleClockSkew_punches]
            exact sound.honest
          · rw [handleClockSkew_lastSync, Option.isSome_some]
  | punch record =>
      cases taken
      exact ⟨List.forall_mem_cons.mpr ⟨sound.stamp record met, sound.honest⟩, sound.synced⟩
  | elapse ms seconds =>
      cases taken
      exact ⟨sound.honest, sound.synced⟩

/-- In a run that never trusts an RTC before it was set, and never punches a day after, a
synced timestamp was synced. -/
theorem punches_honest_of_syncedInTime (unixtime : Nat) (events : List Event) (final : Terminal)
    (along : Along step SyncedInTime (fresh unixtime) events)
    (ran : run step (fresh unixtime) events = some final) :
    ∀ punch ∈ final.punches, punch.Honest := by
  have start : (fresh unixtime).Sound := ⟨by simp [fresh], by simp [fresh]⟩
  exact (Along.invariant (fun _ _ _ sound met taken => Sound.step sound met taken) start along ran).honest

open PowerCut.Terminal (punch)

/-- The RTC runs, but nobody ever set it from the gateway. -/
def neverSet : List Event := [.boot true false, .punch (punch 1)]

/-- Set once after a dead battery, then two days without a correction. -/
def longAgo : List Event :=
  [.boot true true, .heartbeat (some 1700000000000), .elapse (2 * dayMs) (2 * 24 * 60 * 60),
    .punch (punch 1)]

theorem rtc_synced_without_sync :
    (∃ final stamped, run step (fresh 0) neverSet = some final ∧ final.punches = [stamped] ∧
      stamped.record.timeSource = 0 ∧ ¬ stamped.Honest) ∧
    ∃ final stamped, run step (fresh 0) longAgo = some final ∧ final.punches = [stamped] ∧
      stamped.record.timeSource = 0 ∧ ¬ stamped.Honest := by
  refine ⟨⟨_, _, rfl, rfl, by decide, fun honest => ?_⟩, _, _, rfl, rfl, by decide, fun honest => ?_⟩
  · obtain ⟨sync, last, -⟩ := honest.1 (by decide)
    cases last
  · obtain ⟨sync, last, recent⟩ := honest.1 (by decide)
    cases last
    exact absurd recent (by decide)

def corrected : List Event :=
  [.boot true true, .punch (punch 1), .heartbeat (some 5000), .elapse 3600000 3600,
    .punch (punch 2), .unauthorized (some 3635000), .boot true false, .elapse (2 * dayMs) 0,
    .punch (punch 3)]

theorem punches_honest_of_corrected :
    ∃ final, run step (fresh 0) corrected = some final ∧
      final.punches.map (·.record.timeSource) = [1, 0, 2] ∧ ∀ punch ∈ final.punches, punch.Honest := by
  have along : Along step SyncedInTime (fresh 0) corrected := by
    decide
  exact ⟨_, rfl, by decide, punches_honest_of_syncedInTime 0 corrected _ along rfl⟩

end Terminal

end Presence.Firmware.ClockTrust
