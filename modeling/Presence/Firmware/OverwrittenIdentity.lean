import Presence.Firmware.DeviceIdentity

namespace Presence.Firmware.DeviceIdentity

open Presence.Data

/-! # A `device_id` next to another attempt's secret

Three numbers are in use at a time: that of the stored secret, and that of the attempt
of each task until it has stored its own.
-/

variable {outcome : Outcome} {attempt : Attempt} {call : StoreCall} {terminal next : Terminal}

structure Numbers where
  count : Nat
  secret : Option Nat
  net : Option Nat
  loop : Option Nat

structure Numbers.Distinct (numbers : Numbers) : Prop where
  secret : ∀ number ∈ numbers.secret, number < numbers.count
  net : ∀ number ∈ numbers.net, number < numbers.count ∧ number ∉ numbers.secret
  loop : ∀ number ∈ numbers.loop,
    number < numbers.count ∧ number ∉ numbers.secret ∧ number ∉ numbers.net

def Drops (before after : Option Nat) : Prop := after = before ∨ after = none

inductive Numbers.Moved (numbers : Numbers) : Numbers → Prop
  | dropped {secret net loop : Option Nat} (dropsSecret : Drops numbers.secret secret)
      (dropsNet : Drops numbers.net net) (dropsLoop : Drops numbers.loop loop) :
      Moved numbers ⟨numbers.count, secret, net, loop⟩
  | netStored : Moved numbers ⟨numbers.count, numbers.net, none, numbers.loop⟩
  | loopStored : Moved numbers ⟨numbers.count, numbers.loop, numbers.net, none⟩
  | answered :
      Moved numbers ⟨numbers.count + 1, numbers.secret, some numbers.count, numbers.loop⟩
  | commanded :
      Moved numbers ⟨numbers.count + 1, numbers.secret, numbers.net, some numbers.count⟩

theorem Drops.mem {before after : Option Nat} {number : Nat} (drops : Drops before after)
    (member : number ∈ after) : number ∈ before := by
  rcases drops with rfl | rfl
  · exact member
  · cases member

theorem Numbers.Distinct.moved {numbers later : Numbers} (distinct : numbers.Distinct)
    (moved : numbers.Moved later) : later.Distinct := by
  obtain ⟨secretBelow, netBelow, loopBelow⟩ := distinct
  cases moved with
  | dropped dropsSecret dropsNet dropsLoop =>
      exact {
        secret := fun number member => secretBelow number (dropsSecret.mem member)
        net := fun number member =>
          ⟨(netBelow number (dropsNet.mem member)).1,
            fun stored => (netBelow number (dropsNet.mem member)).2 (dropsSecret.mem stored)⟩
        loop := fun number member =>
          ⟨(loopBelow number (dropsLoop.mem member)).1,
            fun stored => (loopBelow number (dropsLoop.mem member)).2.1 (dropsSecret.mem stored),
            fun theirs => (loopBelow number (dropsLoop.mem member)).2.2 (dropsNet.mem theirs)⟩ }
  | netStored => exact ⟨by grind, by grind, by grind⟩
  | loopStored => exact ⟨by grind, by grind, by grind⟩
  | answered => exact ⟨by grind, by grind, by grind⟩
  | commanded => exact ⟨by grind, by grind, by grind⟩

/-- The number of the attempt that has its secret still to store. -/
def Work.pending : Work → Option Nat
  | .nothing | .stores _ .readBack => none
  | .holds attempt | .stores attempt _ => some attempt.origin

def Nvs.number (nvs : Nvs) : Option Nat := nvs.deviceSecret.map Stamped.origin

def Terminal.numbers (terminal : Terminal) : Numbers :=
  ⟨terminal.accepted.length, terminal.nvs.number, terminal.net.work.pending,
    terminal.loop.work.pending⟩

theorem Work.drops_afterStore (attempt : Attempt) (after : StoreCall ⊕ Bool) :
    Drops (some attempt.origin) (Work.afterStore attempt after).pending := by
  rcases after with call | returned
  · cases call with
    | putDeviceId => exact .inl rfl
    | putKeyVersion => exact .inl rfl
    | putDeviceSecret => exact .inl rfl
    | readBack => exact .inr rfl
  · exact .inr rfl

/-- Only the call that stores the secret moves a number, and it is that attempt's own. -/
theorem storeDeviceIdentity_numbers (nvs : Nvs) (attempt : Attempt) (outcome : Outcome)
    (call : StoreCall) :
    ((storeDeviceIdentity nvs attempt outcome call).1.number = nvs.number ∧
        Drops (Work.stores attempt call).pending
          (Work.afterStore attempt (storeDeviceIdentity nvs attempt outcome call).2).pending) ∨
      ((storeDeviceIdentity nvs attempt outcome call).1.number =
          (Work.stores attempt call).pending ∧
        (Work.afterStore attempt (storeDeviceIdentity nvs attempt outcome call).2).pending =
          none) := by
  cases call with
  | putDeviceId =>
      refine .inl ⟨?_, Work.drops_afterStore attempt _⟩
      simp only [storeDeviceIdentity, Nvs.putDeviceId]
      split <;> rfl
  | putKeyVersion =>
      refine .inl ⟨?_, Work.drops_afterStore attempt _⟩
      simp only [storeDeviceIdentity, Nvs.putKeyVersion]
      split <;> rfl
  | putDeviceSecret =>
      cases outcome with
      | done => exact .inr ⟨rfl, rfl⟩
      | failed => exact .inl ⟨rfl, .inr rfl⟩
      | unconfirmed => exact .inr ⟨rfl, rfl⟩
  | readBack => exact .inl ⟨rfl, .inr rfl⟩

theorem Work.Goes.drops {work later : Work} (goes : work.Goes later) :
    Drops work.pending later.pending := by
  cases goes with
  | gone => exact .inr rfl
  | kept => exact .inl rfl
  | opens => exact .inl rfl

/-! ## One step -/

theorem Nvs.drops_remove (nvs : Nvs) (outcome : Outcome) :
    Drops nvs.number (nvs.remove outcome).number := by
  simp only [remove]
  split
  · exact .inr rfl
  · exact .inl rfl

theorem Nvs.number_eraseToken (nvs : Nvs) (outcome : Outcome) :
    (nvs.eraseToken outcome).number = nvs.number := by
  simp only [eraseToken]
  split <;> rfl

namespace Terminal

theorem Moved.netStored (net : terminal.net = .store attempt call) :
    terminal.numbers.Moved
      (numbers { terminal with
        nvs := (storeDeviceIdentity terminal.nvs attempt outcome call).1
        net := .afterStore attempt (storeDeviceIdentity terminal.nvs attempt outcome call).2 }) := by
  have pending : (Work.stores attempt call).pending = terminal.numbers.net := by
    simp only [numbers, net]
    rfl
  have after := NetTask.afterStore_work attempt
    (storeDeviceIdentity terminal.nvs attempt outcome call).2
  simp only [numbers, after]
  rcases storeDeviceIdentity_numbers terminal.nvs attempt outcome call with
    ⟨kept, drops⟩ | ⟨mine, done⟩
  · rw [pending] at drops
    exact .dropped (.inl kept) drops (.inl rfl)
  · rw [mine, done, pending]
    exact .netStored

theorem Moved.loopStored (loop : terminal.loop = .store attempt call) :
    terminal.numbers.Moved
      (numbers { terminal with
        nvs := (storeDeviceIdentity terminal.nvs attempt outcome call).1
        loop := .afterStore attempt (storeDeviceIdentity terminal.nvs attempt outcome call).2 }) := by
  have pending : (Work.stores attempt call).pending = terminal.numbers.loop := by
    simp only [numbers, loop]
    rfl
  have after := LoopTask.afterStore_work attempt
    (storeDeviceIdentity terminal.nvs attempt outcome call).2
  simp only [numbers, after]
  rcases storeDeviceIdentity_numbers terminal.nvs attempt outcome call with
    ⟨kept, drops⟩ | ⟨mine, done⟩
  · rw [pending] at drops
    exact .dropped (.inl kept) (.inl rfl) drops
  · rw [mine, done, pending]
    exact .loopStored

theorem accept_count (terminal : Terminal) (result : ProvisionResult) :
    (terminal.accept result).accepted.length = terminal.accepted.length + 1 := by
  simp [accept]

theorem boot_moved (terminal : Terminal) (isKey eraseToken : Outcome) :
    terminal.numbers.Moved (terminal.boot isKey eraseToken).numbers := by
  simp only [boot]
  split
  · exact .dropped (.inl (Nvs.number_eraseToken ..)) (.inr rfl) (.inr rfl)
  · exact .dropped (.inl rfl) (.inr rfl) (.inr rfl)

theorem Stepped.moved {event : Event} (stepped : terminal.Stepped event next) :
    terminal.numbers.Moved next.numbers := by
  cases stepped with
  | booted isKey eraseToken => exact boot_moved terminal isKey eraseToken
  | entered => exact .dropped (.inl rfl) (.inl rfl) (.inl rfl)
  | asked net quiet => exact .dropped (.inl rfl) (.inr (by rw [quiet]; rfl)) (.inl rfl)
  | turnedDown net quiet => exact .dropped (.inl rfl) (.inr (by rw [quiet]; rfl)) (.inl rfl)
  | answered result =>
      simp only [numbers, accept_count]
      exact .answered
  | netStored attempt call net => exact Moved.netStored net
  | tokenErased => exact .dropped (.inl (Nvs.number_eraseToken ..)) (.inr rfl) (.inl rfl)
  | notCommanded => exact .dropped (.inl rfl) (.inl rfl) (.inl rfl)
  | commanded result =>
      simp only [numbers, accept_count]
      exact .commanded
  | loopStored attempt call loop => exact Moved.loopStored loop
  | loopWent loop _ goes => exact .dropped (.inl rfl) (.inl rfl) goes.drops
  | loopRemoved loop _ goes => exact .dropped (Nvs.drops_remove ..) (.inl rfl) goes.drops

theorem step_distinct {event : Event} (distinct : terminal.numbers.Distinct)
    (stepped : terminal.step event = some next) : next.numbers.Distinct :=
  distinct.moved (stepped_of_step stepped).moved

theorem fresh_distinct : fresh.numbers.Distinct where
  secret := fun _ member => nomatch member
  net := fun _ member => nomatch member
  loop := fun _ member => nomatch member

end Terminal

/-! ## What storing it does -/

theorem Work.stores_of_opening {work : Work} (opening : work.opening = true) :
    ∃ attempt, work = .stores attempt .putDeviceId := by
  cases work with
  | stores attempt call =>
      cases call with
      | putDeviceId => exact ⟨attempt, rfl⟩
      | putKeyVersion => cases opening
      | putDeviceSecret => cases opening
      | readBack => cases opening
  | nothing => cases opening
  | holds attempt => cases opening

theorem NetTask.store_of_opening {net : NetTask} (opening : net.work.opening = true) :
    ∃ attempt, net = .store attempt .putDeviceId := by
  obtain ⟨attempt, stores⟩ := Work.stores_of_opening opening
  cases net <;> cases stores
  exact ⟨attempt, rfl⟩

theorem LoopTask.store_of_opening {loop : LoopTask} (opening : loop.work.opening = true) :
    ∃ attempt, loop = .store attempt .putDeviceId := by
  obtain ⟨attempt, stores⟩ := Work.stores_of_opening opening
  cases loop <;> cases stores
  exact ⟨attempt, rfl⟩

namespace Terminal

/-- The event stores a `device_id`. -/
def Opens (terminal : Terminal) : Event → Prop
  | .net outcome => terminal.net.work.opening = true ∧ outcome.applied = true
  | .loop outcome => terminal.loop.work.opening = true ∧ outcome.applied = true
  | _ => False

theorem storeDeviceIdentity_opens {nvs : Nvs} {attempt : Attempt} {accepted : List ProvisionResult}
    (applied : outcome.applied = true) (present : nvs.deviceSecret ≠ none)
    (differs : attempt.origin ∉ nvs.number) :
    ¬ (storeDeviceIdentity nvs attempt outcome .putDeviceId).1.Whole accepted := by
  obtain ⟨secret, found⟩ := Option.ne_none_iff_exists'.mp present
  have stored : (storeDeviceIdentity nvs attempt outcome .putDeviceId).1 =
      { nvs with deviceId := some ⟨attempt.result.deviceId, attempt.origin⟩ } := by
    simp [storeDeviceIdentity, Nvs.putDeviceId, applied]
  rw [stored]
  refine Nvs.not_whole_of_differs rfl found fun same => differs ?_
  simp [Nvs.number, found, ← same]

/-- Whatever a run did before, a `device_id` stored while there is a `device_secret` leaves a
mixture. -/
theorem not_whole_of_opens {event : Event} (distinct : terminal.numbers.Distinct)
    (opens : terminal.Opens event) (present : terminal.nvs.deviceSecret ≠ none)
    (stepped : terminal.step event = some next) : ¬ next.Whole := by
  cases event with
  | net outcome =>
      obtain ⟨opening, applied⟩ := opens
      obtain ⟨attempt, net⟩ := NetTask.store_of_opening opening
      have differs : attempt.origin ∉ terminal.nvs.number :=
        (distinct.net attempt.origin (by simp only [numbers, net]; rfl)).2
      simp only [step, netStep, net, Option.some.injEq] at stepped
      subst stepped
      exact storeDeviceIdentity_opens applied present differs
  | loop outcome =>
      obtain ⟨opening, applied⟩ := opens
      obtain ⟨attempt, loop⟩ := LoopTask.store_of_opening opening
      have differs : attempt.origin ∉ terminal.nvs.number :=
        (distinct.loop attempt.origin (by simp only [numbers, loop]; rfl)).2.1
      simp only [step, loopStep, loop, Option.some.injEq] at stepped
      subst stepped
      exact storeDeviceIdentity_opens applied present differs
  | boot isKey eraseToken => cases opens
  | enterToken isKey save => cases opens
  | provision load => cases opens
  | answer httpStatus body => cases opens
  | bench line => cases opens

end Terminal

/-! ## A build without the bench command -/

def Event.Released : Event → Prop
  | .bench _ => False
  | _ => True

namespace Terminal

theorem Stepped.idle {event : Event} (stepped : terminal.Stepped event next)
    (released : event.Released) (idle : terminal.loop = .idle) : next.loop = .idle := by
  cases stepped with
  | booted => rfl
  | entered => exact idle
  | asked => exact idle
  | turnedDown => exact idle
  | answered => exact idle
  | netStored => exact idle
  | tokenErased => exact idle
  | notCommanded => exact idle
  | commanded => cases released
  | loopStored attempt call loop =>
      rw [idle] at loop
      cases loop
  | loopWent _ busy => exact absurd idle busy
  | loopRemoved _ busy => exact absurd idle busy

/-- A step that is not clear leaves a mixture at once. -/
theorem clear_of_whole {event : Event} (distinct : terminal.numbers.Distinct)
    (idle : terminal.loop = .idle)
    (whole : ∀ next, terminal.step event = some next → next.Whole) : terminal.Clear event := by
  cases event with
  | net outcome =>
      intro opening applied
      refine ⟨?_, by rw [idle]; rfl⟩
      by_contra present
      obtain ⟨attempt, net⟩ := NetTask.store_of_opening opening
      have stepped : ∃ next, terminal.step (.net outcome) = some next := by
        simp [step, netStep, net]
      obtain ⟨next, stepped⟩ := stepped
      have opens : terminal.Opens (.net outcome) := ⟨opening, applied⟩
      exact not_whole_of_opens distinct opens present stepped (whole next stepped)
  | loop outcome =>
      intro opening
      rw [idle] at opening
      cases opening
  | boot isKey eraseToken => trivial
  | enterToken isKey save => trivial
  | provision load => trivial
  | answer httpStatus body => trivial
  | bench line => trivial

theorem along_of_whole {events : List Event} (distinct : terminal.numbers.Distinct)
    (idle : terminal.loop = .idle) (released : ∀ event ∈ events, event.Released)
    (whole : ∀ count reached,
      run step terminal (events.take count) = some reached → reached.Whole) :
    Along step Clear terminal events := by
  induction events generalizing terminal with
  | nil => trivial
  | cons event rest ih =>
      refine ⟨clear_of_whole distinct idle fun next stepped => ?_, fun next stepped => ?_⟩
      · apply whole 1 next
        rw [List.take_succ_cons, run_cons _ stepped]
        rfl
      · have stays := (stepped_of_step stepped).idle (released event (by simp)) idle
        refine ih (step_distinct distinct stepped) stays
          (fun other member => released other (by simp [member])) fun count reached ran => ?_
        apply whole (count + 1) reached
        rw [List.take_succ_cons, run_cons _ stepped, ran]

/-- Where the loop task has no bench command, the condition is exact: no state of a run is a
mixture just where no `device_id` is stored next to a `device_secret`. -/
theorem whole_iff_clear {events : List Event} (released : ∀ event ∈ events, event.Released) :
    (∀ count reached, run step fresh (events.take count) = some reached → reached.Whole) ↔
      Along step Clear fresh events := by
  constructor
  · exact along_of_whole fresh_distinct rfl released
  · intro clear count reached ran
    exact whole_of_clear (clear.take count) ran

end Terminal

end Presence.Firmware.DeviceIdentity
