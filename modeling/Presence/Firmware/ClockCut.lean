import Presence.Firmware.ClockTrust

namespace Presence.Firmware.ClockCut

open Presence.Data

/-! # Clock corrections and power cuts

What `handleClockSkew` and the clock adoption of `sendHeartbeat` write to the RTC and to
NVS, one write at a time, over an RTC that runs at the rate of the server's clock.  Both
take the server's time of the moment.
-/

/-- What outlasts a power cut.  The RTC counts milliseconds inside, so many ahead of the
server, and reads whole seconds. -/
structure Device where
  aheadMs : Int
  /-- `rtc_offset` in NVS -/
  storedOffset : Option Int

structure Clock where
  rtcTrusted : Bool
  rtcOffsetMs : Int

structure Terminal where
  /-- What the server's clock says, in milliseconds. -/
  now : Nat
  device : Device
  clock : Option Clock
  /-- Set by the first offset that NVS took, and by every adoption. -/
  corrected : Bool

/-- What the hardware answers: whether NVS takes the offset and the zero after it, and how
far into its second the RTC starts when it is set. -/
structure Hardware where
  offsetTaken : Bool
  zeroTaken : Bool
  fractionMs : Fin 1000

inductive Write where
  | offset (ms : Int) (taken : Bool)
  | adjust (seconds : Int) (fractionMs : Nat) (adopting : Bool)

/-- An answer with `server_time_ms`: one with status 401, or an accepted heartbeat. -/
inductive Answer where
  | unauthorized
  | accepted

inductive Event where
  | boot (answers lostPower : Bool)
  | answer (answer : Answer) (hardware : Hardware)
  /-- The power is cut after so many writes. -/
  | cut (answer : Answer) (hardware : Hardware) (writes : Nat)
  | powerOff
  | elapse (ms : Nat)

def Device.stored (device : Device) : Int := device.storedOffset.getD 0

def Device.unixtime (device : Device) (now : Nat) : Int := (now + device.aheadMs) / 1000

/-- Too far off to be called unsynchronised. -/
def Beyond (offset : Int) : Prop := offset > 60000 ∨ offset < -60000

instance (offset : Int) : Decidable (Beyond offset) :=
  inferInstanceAs (Decidable (_ ∨ _))

/-- The cast to `uint32_t` of the server's seconds. -/
def adjusted (serverMs : Int) : Int := serverMs.tdiv 1000 % 2 ^ 32

namespace Terminal

def skew (terminal : Terminal) : Int := terminal.now - terminal.device.unixtime terminal.now * 1000

def writes (terminal : Terminal) (clock : Clock) (hardware : Hardware) : Answer → List Write
  | .unauthorized =>
      .offset terminal.skew hardware.offsetTaken ::
        if Beyond terminal.skew then
          [.adjust (adjusted terminal.now) hardware.fractionMs false, .offset 0 hardware.zeroTaken]
        else []
  | .accepted =>
      if clock.rtcTrusted then []
      else [.adjust (adjusted terminal.now) hardware.fractionMs true]

def answered (terminal : Terminal) (clock : Clock) : Answer → Clock
  | .unauthorized => ⟨true, if Beyond terminal.skew then 0 else terminal.skew⟩
  | .accepted => if clock.rtcTrusted then clock else ⟨true, 0⟩

def perform (terminal : Terminal) : Write → Terminal
  | .offset ms true =>
      { terminal with device := { terminal.device with storedOffset := some ms }, corrected := true }
  | .offset _ false => terminal
  | .adjust seconds fractionMs adopting =>
      { terminal with
        device := { terminal.device with aheadMs := seconds * 1000 + fractionMs - terminal.now }
        corrected := terminal.corrected || adopting }

def performAll (terminal : Terminal) (writes : List Write) : Terminal := writes.foldl perform terminal

def step (terminal : Terminal) : Event → Option Terminal
  | .boot answers lostPower =>
      some { terminal with clock := some ⟨answers && !lostPower, terminal.device.stored⟩ }
  | .answer answer hardware =>
      terminal.clock.map fun clock =>
        { terminal.performAll (terminal.writes clock hardware answer) with
          clock := some (terminal.answered clock answer) }
  | .cut answer hardware writes =>
      terminal.clock.map fun clock =>
        { terminal.performAll ((terminal.writes clock hardware answer).take writes) with
          clock := none }
  | .powerOff => some { terminal with clock := none }
  | .elapse ms => some { terminal with now := terminal.now + ms }

/-- A terminal out of the box. -/
def fresh (now : Nat) (aheadMs : Int) : Terminal := ⟨now, ⟨aheadMs, none⟩, none, false⟩

/-- The wall time a boot would compute that trusts the RTC. -/
def rebootMs (terminal : Terminal) : Int :=
  terminal.device.unixtime terminal.now * 1000 + terminal.device.stored

/-- Once there is a correction, a boot knows the time to a second; and a terminal that is on
works with the offset it has stored. -/
structure Consistent (terminal : Terminal) : Prop where
  reboot : terminal.corrected = true →
    terminal.now - 1000 ≤ terminal.rebootMs ∧ terminal.rebootMs ≤ terminal.now + 1000
  idle : ∀ clock, terminal.clock = some clock → terminal.device.stored = clock.rtcOffsetMs

/-- The RTC starts as far into its second as the server is, and the second fits. -/
def InStep (now : Nat) (fractionMs : Fin 1000) : Prop :=
  now % 1000 ≤ fractionMs + 1 ∧ now < 2 ^ 32 * 1000

instance (now : Nat) (fractionMs : Fin 1000) : Decidable (InStep now fractionMs) :=
  inferInstanceAs (Decidable (_ ∧ _))

/-- The offset in NVS after so many writes, the RTC having been set by the second. -/
def held (terminal : Terminal) (hardware : Hardware) (writes : Nat) : Int :=
  if 3 ≤ writes ∧ hardware.zeroTaken = true then 0
  else if hardware.offsetTaken then terminal.skew
  else terminal.device.stored

/-- Wherever the RTC is set, NVS holds no offset by the time the power can go; and an
offset that stays in force is in NVS. -/
def Settles (terminal : Terminal) : Event → Prop
  | .answer .unauthorized hardware =>
      (Beyond terminal.skew →
        terminal.held hardware 3 = 0 ∧ InStep terminal.now hardware.fractionMs) ∧
      (¬ Beyond terminal.skew → hardware.offsetTaken = true ∨ terminal.device.stored = terminal.skew)
  | .cut .unauthorized hardware writes =>
      Beyond terminal.skew → 2 ≤ writes →
        terminal.held hardware writes = 0 ∧ InStep terminal.now hardware.fractionMs
  | .answer .accepted hardware =>
      terminal.clock.any (!·.rtcTrusted) = true →
        terminal.device.stored = 0 ∧ InStep terminal.now hardware.fractionMs
  | .cut .accepted hardware writes =>
      terminal.clock.any (!·.rtcTrusted) = true → writes ≠ 0 →
        terminal.device.stored = 0 ∧ InStep terminal.now hardware.fractionMs
  | _ => True

instance (terminal : Terminal) : (event : Event) → Decidable (terminal.Settles event)
  | .answer .unauthorized _ => inferInstanceAs (Decidable ((_ → _) ∧ (_ → _)))
  | .cut .unauthorized _ _ | .cut .accepted _ _ => inferInstanceAs (Decidable (_ → _ → _))
  | .answer .accepted _ => inferInstanceAs (Decidable (_ → _))
  | .boot _ _ | .powerOff | .elapse _ => .isTrue trivial

/-! ## What the invariant is -/

end Terminal

/-- The RTC and the stored offset make up the time, wherever in its second the RTC is. -/
structure Device.Right (device : Device) : Prop where
  low : -1 ≤ device.aheadMs + device.stored
  high : device.aheadMs + device.stored ≤ 1000

theorem Device.Right.reading {device : Device} (right : device.Right) (now : Nat) :
    now - 1000 ≤ device.unixtime now * 1000 + device.stored ∧
      device.unixtime now * 1000 + device.stored ≤ now + 1000 := by
  obtain ⟨low, high⟩ := right
  simp only [unixtime]
  omega

/-- The offset from the reading of the moment. -/
theorem Device.right_skew (terminal : Terminal) :
    Device.Right { terminal.device with storedOffset := some terminal.skew } := by
  constructor <;> simp only [stored, Option.getD_some, Terminal.skew, unixtime] <;> omega

/-- The RTC set to the second. -/
theorem Device.right_adjusted {now : Nat} {fractionMs : Fin 1000} (inStep : Terminal.InStep now fractionMs)
    {storedOffset : Option Int} (none : storedOffset.getD 0 = 0) :
    Device.Right ⟨adjusted now * 1000 + (fractionMs : Nat) - now, storedOffset⟩ := by
  obtain ⟨phase, fits⟩ := inStep
  have seconds : adjusted now = now / 1000 := by
    rw [adjusted, Int.tdiv_eq_ediv_of_nonneg (by omega)]
    omega
  constructor <;> simp only [stored, none, seconds] <;> omega

namespace Terminal

variable {terminal next : Terminal}

structure Sound (terminal : Terminal) : Prop where
  right : terminal.corrected = true → terminal.device.Right
  idle : ∀ clock, terminal.clock = some clock → terminal.device.stored = clock.rtcOffsetMs

theorem Sound.consistent (sound : terminal.Sound) : terminal.Consistent where
  reboot corrected := (sound.right corrected).reading terminal.now
  idle := sound.idle

theorem not_beyond_zero : ¬ Beyond 0 := by decide

/-- After the write of the offset, refused or not. -/
theorem right_offset (right : terminal.corrected = true → terminal.device.Right) (taken : Bool) :
    (terminal.perform (.offset terminal.skew taken)).corrected = true →
      (terminal.perform (.offset terminal.skew taken)).device.Right := by
  cases taken with
  | false => exact right
  | true => exact fun _ => Device.right_skew terminal

/-- After the RTC is set over what NVS then holds. -/
theorem right_adjust {hardware : Hardware} {writes : Nat} (beyond : Beyond terminal.skew)
    (unwritten : ¬ (3 ≤ writes ∧ hardware.zeroTaken = true))
    (settled : terminal.held hardware writes = 0)
    (inStep : InStep terminal.now hardware.fractionMs) :
    let after := (terminal.perform (.offset terminal.skew hardware.offsetTaken)).perform
      (.adjust (adjusted terminal.now) hardware.fractionMs false)
    after.device.Right := by
  rw [held, if_neg unwritten] at settled
  cases taken : hardware.offsetTaken with
  | true =>
      rw [taken, if_pos rfl] at settled
      exact absurd (settled ▸ beyond) not_beyond_zero
  | false =>
      rw [taken] at settled
      exact Device.right_adjusted inStep settled

/-- After the writes of a skew, up to a cut. -/
theorem right_unauthorized (right : terminal.corrected = true → terminal.device.Right)
    (clock : Clock) (hardware : Hardware) (writes : Nat)
    (settles : Beyond terminal.skew → 2 ≤ writes →
      terminal.held hardware writes = 0 ∧ InStep terminal.now hardware.fractionMs) :
    let after := terminal.performAll ((terminal.writes clock hardware .unauthorized).take writes)
    after.corrected = true → after.device.Right := by
  simp only [Terminal.writes]
  by_cases beyond : Beyond terminal.skew
  · rw [if_pos beyond]
    match writes with
    | 0 => exact right
    | 1 => exact right_offset right hardware.offsetTaken
    | 2 =>
        obtain ⟨settled, inStep⟩ := settles beyond (by omega)
        exact fun _ => right_adjust beyond (by omega) settled inStep
    | writes + 3 =>
        obtain ⟨settled, inStep⟩ := settles beyond (by omega)
        have all : ([Write.offset terminal.skew hardware.offsetTaken,
            .adjust (adjusted terminal.now) hardware.fractionMs false,
            .offset 0 hardware.zeroTaken]).take (writes + 3) = _ :=
          List.take_of_length_le (by simp)
        rw [all]
        cases taken : hardware.zeroTaken with
        | true =>
            cases hardware.offsetTaken with
            | true => exact fun _ => Device.right_adjusted inStep rfl
            | false => exact fun _ => Device.right_adjusted inStep rfl
        | false =>
            have unwritten : ¬ (3 ≤ writes + 3 ∧ hardware.zeroTaken = true) := by simp [taken]
            exact fun _ => right_adjust beyond unwritten settled inStep
  · rw [if_neg beyond]
    match writes with
    | 0 => exact right
    | writes + 1 =>
        rw [List.take_of_length_le (by simp)]
        exact right_offset right hardware.offsetTaken

theorem right_accepted (right : terminal.corrected = true → terminal.device.Right)
    (clock : Clock) (hardware : Hardware) (writes : Nat)
    (settles : clock.rtcTrusted = false → writes ≠ 0 →
      terminal.device.stored = 0 ∧ InStep terminal.now hardware.fractionMs) :
    let after := terminal.performAll ((terminal.writes clock hardware .accepted).take writes)
    after.corrected = true → after.device.Right := by
  simp only [Terminal.writes]
  cases trusted : clock.rtcTrusted with
  | true => simpa [performAll] using right
  | false =>
      match writes with
      | 0 => exact right
      | writes + 1 =>
          obtain ⟨none, inStep⟩ := settles trusted (by omega)
          rw [List.take_of_length_le (by simp)]
          exact fun _ => Device.right_adjusted inStep none

/-- The offset in force is the one in NVS. -/
theorem stored_unauthorized (clock : Clock) (hardware : Hardware)
    (settles : terminal.Settles (.answer .unauthorized hardware)) :
    (terminal.performAll (terminal.writes clock hardware .unauthorized)).device.stored =
      (terminal.answered clock .unauthorized).rtcOffsetMs := by
  obtain ⟨far, near⟩ := settles
  simp only [Terminal.writes, answered]
  by_cases beyond : Beyond terminal.skew
  · obtain ⟨settled, -⟩ := far beyond
    rw [if_pos beyond, if_pos beyond]
    cases zero : hardware.zeroTaken with
    | true => rfl
    | false =>
        rw [held, if_neg (by simp [zero])] at settled
        rw [← settled]
        cases hardware.offsetTaken <;> rfl
  · rw [if_neg beyond, if_neg beyond]
    obtain taken | same := near beyond
    · rw [taken]
      rfl
    · cases hardware.offsetTaken with
      | true => rfl
      | false => exact same

theorem Sound.step (sound : terminal.Sound) {event : Event} (settles : terminal.Settles event)
    (taken : terminal.step event = some next) : next.Sound := by
  cases event with
  | boot answers lostPower =>
      cases taken
      exact ⟨sound.right, fun _ same => Option.some.inj same ▸ rfl⟩
  | powerOff =>
      cases taken
      exact ⟨sound.right, by simp⟩
  | elapse ms =>
      cases taken
      exact ⟨sound.right, sound.idle⟩
  | answer answer hardware =>
      obtain ⟨clock, on, rfl⟩ := Option.map_eq_some_iff.mp taken
      have untaken : (terminal.writes clock hardware answer).take 3 =
          terminal.writes clock hardware answer := by
        apply List.take_of_length_le
        cases answer <;> simp only [Terminal.writes] <;> split <;> simp
      cases answer with
      | unauthorized =>
          have right := right_unauthorized sound.right clock hardware 3 fun far _ => settles.1 far
          rw [untaken] at right
          exact ⟨right, fun _ same => Option.some.inj same ▸ stored_unauthorized clock hardware settles⟩
      | accepted =>
          have unknown : clock.rtcTrusted = false →
              terminal.device.stored = 0 ∧ InStep terminal.now hardware.fractionMs :=
            fun untrusted => settles (by simp [on, untrusted])
          have right := right_accepted sound.right clock hardware 3 fun untrusted _ => unknown untrusted
          rw [untaken] at right
          refine ⟨right, fun after same => ?_⟩
          rw [← Option.some.inj same]
          cases trusted : clock.rtcTrusted with
          | true => simpa [Terminal.writes, answered, performAll, trusted] using sound.idle clock on
          | false =>
              simp only [Terminal.writes, answered, trusted, Bool.false_eq_true, if_false]
              exact (unknown trusted).1
  | cut answer hardware writes =>
      obtain ⟨clock, on, rfl⟩ := Option.map_eq_some_iff.mp taken
      refine ⟨?_, by simp⟩
      cases answer with
      | unauthorized => exact right_unauthorized sound.right clock hardware writes settles
      | accepted =>
          exact right_accepted sound.right clock hardware writes fun untrusted =>
            settles (by simp [on, untrusted])

/-! ## Without cuts

When nothing goes wrong, an answer does to the clock what the model of whole corrections
says.
-/

/-- NVS takes both writes. -/
def wellDone (fractionMs : Fin 1000) : Hardware := ⟨true, true, fractionMs⟩

structure Matches (terminal : Terminal) (clock : Clock) (whole : ClockTrust.Terminal) : Prop where
  reading : (whole.unixtime : Int) = terminal.device.unixtime terminal.now
  stored : whole.storedOffset = terminal.device.storedOffset
  trusted : whole.rtcTrusted = clock.rtcTrusted
  offset : whole.rtcOffsetMs = clock.rtcOffsetMs

/-- A set RTC reads the second it was set to. -/
theorem reading_adjust (whole : ClockTrust.Terminal) (fractionMs : Fin 1000) (now : Nat)
    (storedOffset : Option Int) :
    ((whole.adjust now).unixtime : Int) =
      Device.unixtime ⟨adjusted now * 1000 + (fractionMs : Nat) - now, storedOffset⟩ now := by
  simp only [ClockTrust.Terminal.adjust, Device.unixtime, adjusted]
  omega

theorem Matches.unauthorized {clock : Clock} {whole : ClockTrust.Terminal}
    (same : terminal.Matches clock whole) (fractionMs : Fin 1000) :
    (terminal.performAll (terminal.writes clock (wellDone fractionMs) .unauthorized)).Matches
      (terminal.answered clock .unauthorized) (whole.handleClockSkew terminal.now) := by
  have skew : (terminal.now : Int) - whole.unixtime * 1000 = terminal.skew := by
    rw [Terminal.skew, same.reading]
  simp only [Terminal.writes, answered, ClockTrust.Terminal.handleClockSkew, skew]
  by_cases beyond : Beyond terminal.skew
  · rw [if_pos beyond, if_pos beyond, if_pos (show _ ∨ _ from beyond)]
    exact ⟨reading_adjust whole fractionMs terminal.now _, rfl, rfl, rfl⟩
  · rw [if_neg beyond, if_neg beyond, if_neg (show ¬ (_ ∨ _) from beyond)]
    exact ⟨same.reading, rfl, rfl, rfl⟩

theorem Matches.accepted {clock : Clock} {whole : ClockTrust.Terminal}
    (same : terminal.Matches clock whole) (fractionMs : Fin 1000) :
    (terminal.performAll (terminal.writes clock (wellDone fractionMs) .accepted)).Matches
      (terminal.answered clock .accepted)
      (if whole.rtcTrusted then whole else whole.adoptClock terminal.now) := by
  simp only [Terminal.writes, answered, same.trusted]
  cases clock.rtcTrusted with
  | true => exact same
  | false => exact ⟨reading_adjust whole fractionMs terminal.now _, same.stored, rfl, rfl⟩

/-! ## Runs -/

/-- In every run in which the RTC is never set over an offset that stays in NVS, the
corrections survive. -/
theorem consistent_of_settles (now : Nat) (aheadMs : Int) (events : List Event) (final : Terminal)
    (along : Along step Settles (fresh now aheadMs) events)
    (ran : run step (fresh now aheadMs) events = some final) : final.Consistent := by
  have start : (fresh now aheadMs).Sound := ⟨by simp [fresh], by simp [fresh]⟩
  exact (Along.invariant (fun _ _ _ sound settles taken => sound.step settles taken) start along
    ran).consistent

/-- An RTC an hour slow. -/
def hourSlow : Terminal := fresh 1700000000250 (-3600000)

/-- Set to the second, cut after the first write of the next correction, and booted. -/
def survived : List Event :=
  [.boot true false, .answer .unauthorized (wellDone 250), .elapse 1500,
    .cut .unauthorized (wellDone 0) 1, .boot true false]

theorem consistent_of_settles_survived :
    ∃ final, run step hourSlow survived = some final ∧ final.corrected = true ∧
      final.Consistent := by
  have along : Along step Settles hourSlow survived := by decide +kernel
  have possible : (run step hourSlow survived).any (·.corrected) = true := by decide +kernel
  obtain ⟨final, ran, corrected⟩ := (Option.any_eq_true _ _).mp possible
  exact ⟨final, ran, corrected, consistent_of_settles 1700000000250 (-3600000) survived final along ran⟩

/-- The power goes between setting the RTC and writing the zero: the next boot adds the
hour again. -/
def cutBetween : List Event := [.boot true false, .cut .unauthorized (wellDone 250) 2]

/-- A small offset is stored, the RTC does not answer at the next boot, and the heartbeat
sets it over that offset. -/
def adoptedOver : List Event :=
  [.boot true false, .answer .unauthorized (wellDone 0), .boot false false,
    .answer .accepted (wellDone 250)]

/-- The RTC starts its second anew when it is set, at the end of the server's. -/
def behind : List Event :=
  [.boot true true, .answer .accepted (wellDone 0), .elapse 999]

theorem corrections_lost :
    (¬ ∀ (now : Nat) (aheadMs : Int) (events : List Event) (final : Terminal),
        run step (fresh now aheadMs) events = some final → final.Consistent) ∧
    (run step hourSlow cutBetween).map (fun final => (final.now, final.rebootMs)) =
      some (1700000000250, 1700003600250) ∧
    (run step (fresh 1700000000250 (-30000)) adoptedOver).map
      (fun final => (final.device.stored, final.clock.map (·.rtcOffsetMs))) = some (30250, some 0) ∧
    (run step (fresh 1700000000999 0) behind).map (fun final => (final.now, final.rebootMs)) =
      some (1700000001998, 1700000000000) := by
  refine ⟨fun all => ?_, by decide +kernel, by decide +kernel, by decide +kernel⟩
  have wrong : (run step hourSlow cutBetween).any
      (fun final => final.corrected && decide ((final.now : Int) + 1000 < final.rebootMs)) = true := by
    decide +kernel
  obtain ⟨final, ran, late⟩ := (Option.any_eq_true _ _).mp wrong
  obtain ⟨corrected, late⟩ := Bool.and_eq_true_iff.mp late
  have near := (all _ _ _ final ran).reboot corrected
  have far := of_decide_eq_true late
  omega

end Terminal

end Presence.Firmware.ClockCut
