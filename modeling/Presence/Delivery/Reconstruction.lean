import Presence.EndToEnd
import Presence.Firmware.RingQueue

namespace Presence.Delivery.Reconstruction

open Presence.Data Presence.Firmware Presence.Gateway Presence.Go
open Presence.EndToEnd (maxBatch)

/-! # Times taken back from the uptime

A terminal whose RTC was never set stamps a punch with the milliseconds since it booted,
and the gateway counts back from the upload by the difference to the uptime it was sent.
Records outlive a boot in the ring, the uptime does not.  The time that has really passed
is not known to the terminal.
-/

structure Capture where
  /-- As it lies in the ring. -/
  record : PunchRecord
  capturedAt : Nat
  /-- When the boot began in which it was captured. -/
  bootedAt : Nat

structure Terminal where
  device : RingQueue.Device
  /-- Milliseconds that have passed. -/
  now : Nat
  bootedAt : Nat
  /-- What the ring holds, oldest first. -/
  captures : List Capture

inductive Event where
  | punch (record : PunchRecord)
  | acknowledge (seq : UInt64)
  | reboot
  | elapse (ms : Nat)

namespace Terminal

/-- `esp_timer_get_time() / 1000`. -/
def uptimeMs (terminal : Terminal) : UInt64 := .ofNat (terminal.now - terminal.bootedAt)

def stamp (terminal : Terminal) (record : PunchRecord) : PunchRecord :=
  { record with
    capturedEpochMs := 0
    capturedUptimeMs := terminal.uptimeMs
    timeSource := 2 }

def capture (terminal : Terminal) (record : PunchRecord) : Capture :=
  ⟨(terminal.stamp record).withCrc, terminal.now, terminal.bootedAt⟩

/-- A boot lasts less than the 292 years that a `time.Duration` can hold. -/
def lasts (terminal : Terminal) (ms : Nat) : Bool :=
  decide ((terminal.now + ms - terminal.bootedAt) * 1000000 < 2 ^ 63)

def step (terminal : Terminal) : Event → Option Terminal
  | .punch record =>
      let stamped := terminal.stamp record
      let (device, answer) := terminal.device.perform (.append stamped)
      let evicted :=
        if terminal.device.ring.full then terminal.captures.tail else terminal.captures
      match answer with
      | .stored true =>
          some { terminal with device, captures := evicted ++ [terminal.capture record] }
      | _ => some { terminal with device }
  | .acknowledge seq =>
      some { terminal with
        device := (terminal.device.perform (.ackThrough seq)).1
        captures := terminal.captures.dropWhile (RingBuffer.acked seq ·.record) }
  | .reboot =>
      some { terminal with
        device := (terminal.device.perform .reboot).1
        bootedAt := terminal.now }
  | .elapse ms =>
      if terminal.lasts ms then some { terminal with now := terminal.now + ms } else none

/-- A new terminal: nothing in NVS yet, anything in the data file. -/
def fresh (capacityBytes : Nat) (cells : Nat → PunchRecord) : Terminal :=
  ⟨RingQueue.boot ⟨capacityBytes, cells, none⟩, 0, 0, []⟩

/-- What `flushEvents` sends. -/
def upload (terminal : Terminal) (requestId : String) : Option EventsRequest :=
  wireRequest (terminal.device.ring.peek .none terminal.device.storage maxBatch)
    ⟨requestId, terminal.uptimeMs, terminal.device.ring.depth⟩

end Terminal

/-- `effectiveTime` counts back and does not fall back to the time of receipt. -/
structure CountsBack (ev : PunchEvent) (deviceUptimeMs : Int) : Prop where
  source : ev.timeSource = "uptime_only"
  uploaded : 0 < deviceUptimeMs
  captured : 0 < ev.capturedUptimeMs
  ordered : ev.capturedUptimeMs ≤ deviceUptimeMs

/-! ## Invariants -/

/-- A capture as its boot stamped it. -/
structure Capture.Stamped (capture : Capture) (now : Nat) : Prop where
  past : capture.capturedAt ≤ now
  booted : capture.bootedAt ≤ capture.capturedAt
  lasted : (capture.capturedAt - capture.bootedAt) * 1000000 < 2 ^ 63
  uptime : capture.record.capturedUptimeMs = .ofNat (capture.capturedAt - capture.bootedAt)
  unset : capture.record.capturedEpochMs = 0
  source : capture.record.timeSource = 2
  intact : capture.record.intact = true

structure Terminal.Sound (terminal : Terminal) : Prop where
  settled : terminal.device.ring.Settled terminal.device.storage
  booted : terminal.bootedAt ≤ terminal.now
  lasted : (terminal.now - terminal.bootedAt) * 1000000 < 2 ^ 63
  contents : terminal.device.contents = terminal.captures.map Capture.record
  stamped : ∀ capture ∈ terminal.captures, capture.Stamped terminal.now

namespace Terminal

variable {terminal next : Terminal}

theorem Sound.capture (sound : terminal.Sound) (record : PunchRecord) :
    (terminal.capture record).Stamped terminal.now where
  past := le_refl _
  booted := sound.booted
  lasted := sound.lasted
  uptime := rfl
  unset := rfl
  source := rfl
  intact := PunchRecord.withCrc_intact _

theorem sound_fresh (capacityBytes : Nat) (cells : Nat → PunchRecord) :
    (fresh capacityBytes cells).Sound where
  settled := rfl
  booted := le_refl _
  lasted := by simp [fresh]
  contents := RingQueue.contents_boot_empty (by simp)
  stamped := by simp [fresh]

theorem Sound.punch (sound : terminal.Sound) {record : PunchRecord}
    (taken : terminal.step (.punch record) = some next) : next.Sound := by
  have settled := sound.settled.append (terminal.stamp record)
  by_cases usable : terminal.device.ring.slots ≠ 0
  · have filled := @RingBuffer.contents_append terminal.device.ring terminal.device.storage usable
      (terminal.stamp record)
    rw [RingBuffer.append_none usable] at filled settled
    simp only [step, RingQueue.Device.perform, RingBuffer.append_none usable, Option.some.injEq] at taken
    subst taken
    refine ⟨settled, sound.booted, sound.lasted, ?_, ?_⟩
    · change RingBuffer.contents _ _ = _
      rw [filled, ← RingQueue.Device.contents, sound.contents]
      by_cases full : terminal.device.ring.full = true <;>
        simp [full, Terminal.capture, List.map_tail]
    · intro capture member
      rcases List.mem_append.mp member with old | new
      · apply sound.stamped capture
        split at old
        next => exact List.mem_of_mem_tail old
        next => exact old
      · rw [List.mem_singleton.mp new]
        exact sound.capture record
  · have refused : terminal.device.ring.append .none (terminal.stamp record) =
        (terminal.device.ring, [], false) := by
      simp [RingBuffer.append, usable]
    simp only [step, RingQueue.Device.perform, refused, Option.some.injEq] at taken
    subst taken
    exact ⟨sound.settled, sound.booted, sound.lasted, sound.contents, sound.stamped⟩

theorem Sound.acknowledge (sound : terminal.Sound) (seq : UInt64) :
    Sound { terminal with
      device := (terminal.device.perform (.ackThrough seq)).1
      captures := terminal.captures.dropWhile (RingBuffer.acked seq ·.record) } where
  settled := sound.settled.ackThrough seq
  booted := sound.booted
  lasted := sound.lasted
  contents := by
    have dropped := terminal.device.ring.contents_ackThrough terminal.device.storage seq
    rw [← RingQueue.Device.contents, sound.contents, List.dropWhile_map] at dropped
    exact dropped
  stamped := fun capture member =>
    sound.stamped capture ((List.dropWhile_suffix _).subset member)

theorem Sound.step (sound : terminal.Sound) {event : Event}
    (taken : terminal.step event = some next) : next.Sound := by
  cases event with
  | punch record => exact sound.punch taken
  | acknowledge seq =>
      cases taken
      exact sound.acknowledge seq
  | reboot =>
      cases taken
      have same : (terminal.device.perform .reboot).1 = terminal.device := by
        rw [RingQueue.Device.perform, RingQueue.boot, sound.settled]
      rw [same]
      exact ⟨sound.settled, le_refl _, by simp, sound.contents, sound.stamped⟩
  | elapse ms =>
      simp only [Terminal.step, lasts, Option.ite_none_right_eq_some, decide_eq_true_iff,
        Option.some.injEq] at taken
      obtain ⟨lasted, rfl⟩ := taken
      refine ⟨sound.settled, Nat.le_add_right_of_le sound.booted, lasted, sound.contents, fun capture member => ?_⟩
      have stamped := sound.stamped capture member
      exact { stamped with past := Nat.le_add_right_of_le stamped.past }

theorem sound_run {capacityBytes : Nat} {cells : Nat → PunchRecord} {events : List Event}
    (ran : run step (fresh capacityBytes cells) events = some terminal) : terminal.Sound :=
  run_invariant (fun _ _ _ sound taken => Sound.step sound taken) (sound_fresh capacityBytes cells) ran

/-! ## The upload -/

theorem wireEvent_of_stamped {capture : Capture} {now : Nat} (stamped : capture.Stamped now) :
    ∃ ev, wireEvent capture.record = some ev ∧ ev.timeSource = "uptime_only" ∧
      ev.capturedUptimeMs = (capture.capturedAt - capture.bootedAt : Nat) := by
  have small : capture.capturedAt - capture.bootedAt < 2 ^ 63 := by
    have lasted := stamped.lasted
    omega
  have uptime : toInt64 capture.record.capturedUptimeMs =
      (capture.capturedAt - capture.bootedAt : Nat) := by
    rw [stamped.uptime, toInt64_ofNat small]
  have unset : wireCapturedAt capture.record.capturedEpochMs = some ⟨zeroInstant, 0⟩ := by
    rw [stamped.unset]
    rfl
  have source : timeSourceName capture.record.timeSource = "uptime_only" := by
    rw [stamped.source]
    rfl
  rw [wireEvent, unset]
  exact ⟨_, rfl, source, uptime⟩

/-- The batch is the oldest captures, each decoded. -/
theorem Sound.upload (sound : terminal.Sound) (requestId : String) :
    ∃ request, terminal.upload requestId = some request ∧
      request.deviceUptimeMs = (terminal.now - terminal.bootedAt : Nat) ∧
      (terminal.captures.take maxBatch).map (wireEvent ·.record) = request.events.map some := by
  have small : terminal.now - terminal.bootedAt < 2 ^ 63 := by
    have lasted := sound.lasted
    omega
  have intact : (terminal.captures.map Capture.record).filter PunchRecord.intact =
      terminal.captures.map Capture.record := by
    rw [List.filter_eq_self]
    intro record member
    obtain ⟨capture, listed, rfl⟩ := List.mem_map.mp member
    exact (sound.stamped capture listed).intact
  have batch : terminal.device.ring.peek .none terminal.device.storage maxBatch =
      (terminal.captures.take maxBatch).map Capture.record := by
    rw [RingBuffer.peek_eq, ← RingQueue.Device.contents, sound.contents, intact, List.map_take]
  have decoded : ∀ record ∈ (terminal.captures.take maxBatch).map Capture.record,
      ∃ ev, wireEvent record = some ev := by
    intro record member
    obtain ⟨capture, taken, rfl⟩ := List.mem_map.mp member
    obtain ⟨ev, found, -⟩ := wireEvent_of_stamped (sound.stamped capture (List.mem_of_mem_take taken))
    exact ⟨ev, found⟩
  obtain ⟨events, collected, same⟩ := exists_mapM_eq_some decoded
  refine ⟨⟨requestId, toInt64 terminal.uptimeMs, terminal.device.ring.depth, events⟩, ?_,
    toInt64_ofNat small, ?_⟩
  · rw [Terminal.upload, wireRequest, batch, collected]
    rfl
  · rw [← same, List.map_map]
    rfl

/-- Counting back by a length of time that a `time.Duration` can hold. -/
theorem effectiveTime_countsBack {ev : PunchEvent} {deviceUptimeMs : Int} (receivedAt : Time)
    (back : CountsBack ev deviceUptimeMs) (short : deviceUptimeMs * 1000000 < 2 ^ 63) :
    (effectiveTime ev deviceUptimeMs receivedAt).1.instant =
      receivedAt.instant - (deviceUptimeMs - ev.capturedUptimeMs) * millisecond := by
  obtain ⟨source, uploaded, captured, ordered⟩ := back
  have length : wrap64 ((deviceUptimeMs - ev.capturedUptimeMs) * millisecond) =
      (deviceUptimeMs - ev.capturedUptimeMs) * millisecond :=
    Int.bmod_eq_of_le (by unfold millisecond; omega) (by unfold millisecond; omega)
  have negated : wrap64 (-((deviceUptimeMs - ev.capturedUptimeMs) * millisecond)) =
      -((deviceUptimeMs - ev.capturedUptimeMs) * millisecond) :=
    Int.bmod_eq_of_le (by unfold millisecond; omega) (by unfold millisecond; omega)
  simp only [effectiveTime, source, uploaded, captured, ordered, and_self, if_true, length, negated]
  omega

/-- The time taken back from the uptime is that of the capture exactly when the capture's
boot began with the present one. -/
theorem Sound.effectiveTime_iff (sound : terminal.Sound) {capture : Capture} {ev : PunchEvent}
    (stamped : capture.Stamped terminal.now) (decoded : wireEvent capture.record = some ev)
    (back : CountsBack ev (terminal.now - terminal.bootedAt : Nat)) (receivedAt : Time) :
    (effectiveTime ev (terminal.now - terminal.bootedAt : Nat) receivedAt).1.instant =
        receivedAt.instant - (terminal.now - capture.capturedAt : Nat) * millisecond ↔
      capture.bootedAt = terminal.bootedAt := by
  obtain ⟨found, same, -, uptime⟩ := wireEvent_of_stamped stamped
  rw [decoded] at same
  cases same
  have short : ((terminal.now - terminal.bootedAt : Nat) : Int) * 1000000 < 2 ^ 63 := by
    exact_mod_cast sound.lasted
  rw [effectiveTime_countsBack receivedAt back short, uptime]
  have past := stamped.past
  have booted := stamped.booted
  have here := sound.booted
  simp only [millisecond]
  omega

/-- In every run of a terminal whose RTC was never set, of every event it uploads that is
counted back. -/
theorem effectiveTime_capturedAt_iff (capacityBytes : Nat) (cells : Nat → PunchRecord)
    (events : List Event) (terminal : Terminal)
    (ran : run step (fresh capacityBytes cells) events = some terminal) (requestId : String) :
    terminal.device.contents = terminal.captures.map Capture.record ∧
    ∃ request, terminal.upload requestId = some request ∧
      request.events.length = (terminal.captures.take maxBatch).length ∧
      ∀ (index : Nat) (capture : Capture) (ev : PunchEvent),
        (terminal.captures.take maxBatch)[index]? = some capture →
        request.events[index]? = some ev → CountsBack ev request.deviceUptimeMs →
        ∀ receivedAt : Time,
          ((effectiveTime ev request.deviceUptimeMs receivedAt).1.instant =
              receivedAt.instant - (terminal.now - capture.capturedAt : Nat) * millisecond ↔
            capture.bootedAt = terminal.bootedAt) := by
  have sound := sound_run ran
  obtain ⟨request, sent, uptime, decoded⟩ := sound.upload requestId
  refine ⟨sound.contents, request, sent, ?_, ?_⟩
  · simpa using (congrArg List.length decoded).symm
  · intro index capture ev listed uploaded back receivedAt
    have here := congrArg (·[index]?) decoded
    simp only [List.getElem?_map, uploaded, listed, Option.map_some, Option.some.injEq] at here
    have member := List.mem_of_mem_take (List.mem_of_getElem? listed)
    rw [uptime] at back ⊢
    exact sound.effectiveTime_iff (sound.stamped capture member) here back receivedAt

open PowerCut.Terminal (punch)

/-- Ten seconds after the first boot a punch, an hour later a reboot. -/
def acrossBoots : List Event :=
  [.elapse 10000, .punch (punch 1), .elapse 3600000, .reboot, .elapse 60000]

theorem effectiveTime_capturedAt_acrossBoots :
    ∃ terminal, run step (fresh 600 fun _ => punch 0) acrossBoots = some terminal ∧
      terminal.device.contents = terminal.captures.map Capture.record :=
  have ⟨terminal, ran⟩ : ∃ terminal, run step (fresh 600 fun _ => punch 0) acrossBoots = some terminal :=
    Option.isSome_iff_exists.mp (by decide +kernel)
  ⟨terminal, ran,
    (effectiveTime_capturedAt_iff 600 (fun _ => punch 0) acrossBoots terminal ran "").1⟩

/-- Counted back by fifty seconds, an hour after the capture. -/
theorem effectiveTime_anHourLate :
    (run step (fresh 600 fun _ => punch 0) acrossBoots).map (fun terminal =>
      (terminal.captures.map fun capture => terminal.now - capture.capturedAt,
        (terminal.upload "").map fun request => request.events.map fun ev =>
          (effectiveTime ev request.deviceUptimeMs ⟨0, 0⟩).1.instant)) =
      some ([3660000], some [-50000 * millisecond]) := by
  decide +kernel

end Terminal

end Presence.Delivery.Reconstruction
