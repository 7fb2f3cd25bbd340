import Presence.Ota.Terminal

namespace Presence.Ota

open Presence.Data Presence.Firmware

/-! # An image that was rolled back

The blob in NVS has room for one bad image.  As long as no second one is recorded,
the guard knows it across resets and refuses it.
-/

/-- The bad image on record. -/
def OtaPersistedState.KnowsBad (st : OtaPersistedState) (sha256 : Sha256) : Prop :=
  st.hasBad = true ∧ st.badSha = sha256

instance (st : OtaPersistedState) (sha256 : Sha256) : Decidable (st.KnowsBad sha256) :=
  inferInstanceAs (Decidable (_ ∧ _))

/-- Recording the pending image would drop another one. -/
def OtaPersistedState.displaces (st : OtaPersistedState) : Bool :=
  st.hasBad && st.pendingSha != st.badSha

def Flash.record (flash : Flash) : OtaPersistedState := OtaPersistedState.usable flash.nvs

/-- NVS takes every write of the event. -/
def Event.saves : Event → Bool
  | .complete operation outcome | .cut operation outcome _ =>
      outcome.saved &&
        match operation with
        | .install _ flashing => flashing.cleared
        | _ => true
  | _ => true

namespace Terminal

/-- The boot or the tick gives up an image while another one is on record. -/
def displaces (builtAs : List UInt8 → List UInt8) (terminal : Terminal) : Event → Bool
  | .complete operation _ | .cut operation _ _ =>
      match terminal.power, operation with
      | .started, .begin _ _ =>
          let st := terminal.flash.record
          st.hasPending && !st.pendingIs (parseOtaVersion (terminal.runningVersion builtAs)) &&
            st.displaces
      | .on guard, .tick nowMs =>
          guard.awaiting && !guard.rollbackRequested &&
            decide (guard.timeoutMs ≤ nowMs - guard.bootMs) &&
            guard.st.pendingIs guard.running && guard.st.displaces
      | _, _ => false
  | _ => false

end Terminal

/-! ## RAM and NVS agree -/

/-- The guard works on what NVS holds. -/
def Synced (flash : Flash) (guard : OtaGuard) : Prop := flash.record = guard.st

section

variable {flash : Flash} {guard after : OtaGuard} {outcome : Outcome} {sha256 : Sha256}
  {release : Release}

theorem Synced.magic (synced : Synced flash guard) : guard.st.magic = kOtaStateMagic := by
  rw [← synced]
  exact OtaPersistedState.usable_magic _

theorem synced_begin (timeoutMs : UInt32) (runningVersion : List UInt8) (pendingVerify : Bool)
    (nowMs : UInt32) (saved : outcome.saved = true) :
    let done := OtaGuard.begin timeoutMs flash.nvs runningVersion pendingVerify nowMs outcome
    Synced (flash.performAll (done.2.map .guard)) done.1 := by
  intro done
  have magic : done.1.st.magic = kOtaStateMagic :=
    (OtaGuard.begin_spec timeoutMs flash.nvs runningVersion pendingVerify nowMs outcome).2.2.1
  revert magic
  simp only [done, OtaGuard.begin, OtaGuard.save, saved, if_true]
  split
  next => exact fun magic => OtaPersistedState.usable_of_magic magic
  next => exact fun _ => rfl

theorem Synced.onHealthy (synced : Synced flash guard) (saved : outcome.saved = true) :
    Synced (flash.performAll ((guard.onHealthy outcome).2.map .guard)) (guard.onHealthy outcome).1 := by
  have magic : guard.settled.magic = kOtaStateMagic := guard.settled_spec.1.trans synced.magic
  unfold OtaGuard.onHealthy
  split
  next => exact synced
  next =>
    split
    next => exact synced
    next =>
      simp only [OtaGuard.save, saved, if_true]
      by_cases same : guard.settled = guard.st
      · rw [if_pos same]
        cases guard.awaiting with
        | false => exact synced.trans same.symm
        | true => exact synced.trans same.symm
      · rw [if_neg same]
        cases guard.awaiting with
        | false => exact OtaPersistedState.usable_of_magic magic
        | true => exact OtaPersistedState.usable_of_magic magic

theorem Synced.tick (synced : Synced flash guard) (nowMs : UInt32) (saved : outcome.saved = true) :
    Synced (flash.performAll ((guard.tick nowMs outcome).2.map .guard)) (guard.tick nowMs outcome).1 := by
  unfold OtaGuard.tick
  split
  next => exact synced
  next =>
    split
    next => exact synced
    next =>
      simp only [OtaGuard.save, saved, if_true]
      cases guard.st.pendingIs guard.running with
      | false => exact synced
      | true =>
          have magic : guard.st.notePendingBad.magic = kOtaStateMagic := synced.magic
          exact OtaPersistedState.usable_of_magic magic

theorem Synced.commitOta (synced : Synced flash guard) (offer : Offer) (flashing : Flashing)
    (saved : outcome.saved = true) (cleared : flashing.cleared = true) :
    let done := commitOta guard offer flashing outcome
    Synced (flash.performAll done.2.1) done.1 := by
  unfold Ota.commitOta OtaGuard.notePending OtaGuard.clearPending
  cases parseOtaVersion offer.version with
  | none => exact synced
  | some pendingVersion =>
      simp only [OtaGuard.save, saved, cleared, if_true]
      cases flashing.bootSet with
      | false => exact OtaPersistedState.usable_of_magic synced.magic
      | true => exact OtaPersistedState.usable_of_magic synced.magic

theorem Synced.storeOta (synced : Synced flash guard) (offer : Offer) (flashing : Flashing)
    (saved : outcome.saved = true) (cleared : flashing.cleared = true) :
    let done := storeOta release guard offer flashing outcome
    Synced (flash.performAll done.2.1) done.1 := by
  unfold Ota.storeOta
  cases flashing.transfer with
  | truncated => exact synced
  | writeFailed => exact synced
  | complete content =>
      dsimp only
      generalize (List.range offer.size).map content = stored
      iterate 4
        split
        next => exact synced
      -- the writes come first and touch no NVS
      have written : Synced (flash.performAll [.eraseIdle, .writeIdle stored]) guard := synced
      have committed := written.commitOta offer flashing saved cleared
      simpa [Flash.performAll] using committed

theorem Synced.applyOta (synced : Synced flash guard) (offer : Offer) (flashing : Flashing)
    (saved : outcome.saved = true) (cleared : flashing.cleared = true) :
    let done := applyOta release guard offer flashing outcome
    Synced (flash.performAll done.2.1) done.1 := by
  unfold Ota.applyOta
  iterate 5
    split
    next => exact synced
  split
  next =>
    dsimp only
    split
    · exact synced
    · exact synced
  next => exact synced.storeOta offer flashing saved cleared

theorem Synced.install (synced : Synced flash guard) (offer : Offer) (flashing : Flashing)
    (saved : outcome.saved = true) (cleared : flashing.cleared = true) :
    let done := Ota.applyOta release guard offer flashing outcome
    ∀ after, (if done.2.2 = .applied then none else some done.1) = some after →
      Synced (flash.performAll done.2.1) after := by
  intro done after same
  have applied : Synced (flash.performAll done.2.1) done.1 :=
    synced.applyOta offer flashing saved cleared
  split at same
  next => cases same
  next =>
    cases same
    exact applied

theorem Synced.confirmDeadline (synced : Synced flash guard) :
    ∀ after, (if guard.awaiting then none else some guard) = some after →
      Synced (flash.performAll (guard.onConfirmDeadline.map .guard)) after := by
  intro after same
  unfold OtaGuard.onConfirmDeadline
  split at same
  next => cases same
  next confirmed =>
    cases same
    rw [if_neg confirmed]
    exact synced

/-! ## The record is kept -/

/-- A save keeps the image on record. -/
def FlashCall.Remembers (sha256 : Sha256) (call : FlashCall) : Prop :=
  ∀ st, call = .guard (.save st) → st.magic = kOtaStateMagic ∧ st.KnowsBad sha256

theorem remembers_nothing : ∀ call ∈ ([] : List FlashCall), call.Remembers sha256 := by
  intro call member
  cases member

theorem remembers_quiet {call : FlashCall} (quiet : ∀ st, call ≠ .guard (.save st)) :
    call.Remembers sha256 :=
  fun st same => absurd same (quiet st)

theorem remembers_saves {st : OtaPersistedState} {calls : List Call}
    (saves : OtaGuard.Saves st calls) (magic : st.magic = kOtaStateMagic)
    (known : st.KnowsBad sha256) : ∀ call ∈ calls.map FlashCall.guard, call.Remembers sha256 := by
  rcases saves with rfl | rfl
  · exact remembers_nothing
  · intro call member other same
    rw [List.map_singleton, List.mem_singleton] at member
    cases member.symm.trans same
    exact ⟨magic, known⟩

theorem Harmless.remembers {st : OtaPersistedState} {call : FlashCall} (harmless : Harmless st call)
    (magic : st.magic = kOtaStateMagic) (known : st.KnowsBad sha256) : call.Remembers sha256 := by
  intro other same
  cases harmless with
  | eraseIdle => cases same
  | writeIdle => cases same
  | save keeps =>
      cases same
      exact ⟨keeps.magic.trans magic, keeps.hasBad.trans known.1, keeps.badSha.trans known.2⟩

theorem throughout_remembers {calls : List FlashCall} (known : flash.record.KnowsBad sha256)
    (remembers : ∀ call ∈ calls, call.Remembers sha256) :
    Throughout Flash.perform (fun flash => flash.record.KnowsBad sha256) flash calls := by
  refine throughout_of_preserved known fun flash call member before => ?_
  have kept := remembers call member
  match call with
  | .guard (.save st) =>
      obtain ⟨magic, known⟩ := kept st rfl
      change (OtaPersistedState.usable (some st)).KnowsBad sha256
      rw [OtaPersistedState.usable_of_magic magic]
      exact known
  | .guard .markValid | .guard .rollback | .guard .restart | .eraseIdle | .writeIdle _
  | .setBootIdle => exact before

/-- Giving up the pending image keeps the record when it is the one on it. -/
theorem OtaPersistedState.KnowsBad.notePendingBad {st : OtaPersistedState}
    (known : st.KnowsBad sha256) (same : st.displaces = false) :
    st.notePendingBad.KnowsBad sha256 := by
  have pending : st.pendingSha = st.badSha := by
    simpa [OtaPersistedState.displaces, known.1] using same
  exact ⟨rfl, pending.trans known.2⟩

theorem begin_remembers (known : flash.record.KnowsBad sha256) (timeoutMs : UInt32)
    (runningVersion : List UInt8) (pendingVerify : Bool) (nowMs : UInt32)
    (keeps : (flash.record.hasPending && !flash.record.pendingIs (parseOtaVersion runningVersion) &&
      flash.record.displaces) = false) :
    let done := OtaGuard.begin timeoutMs flash.nvs runningVersion pendingVerify nowMs outcome
    ∀ call ∈ done.2.map FlashCall.guard, call.Remembers sha256 := by
  simp only [OtaGuard.begin]
  split
  next fellBack =>
    have same : flash.record.displaces = false := by
      change (flash.record.hasPending && !flash.record.pendingIs _) = true at fellBack
      rw [fellBack] at keeps
      exact keeps
    refine remembers_saves (OtaGuard.saves_save _ _) (OtaPersistedState.usable_magic _) ?_
    exact ⟨rfl, (known.notePendingBad same).2⟩
  next => exact remembers_nothing

theorem Synced.onHealthy_remembers (synced : Synced flash guard) (known : guard.st.KnowsBad sha256) :
    ∀ call ∈ (guard.onHealthy outcome).2.map FlashCall.guard, call.Remembers sha256 := by
  obtain ⟨magic, hasBad, badSha, -⟩ := guard.settled_spec
  have settled : guard.settled.KnowsBad sha256 := ⟨hasBad.trans known.1, badSha.trans known.2⟩
  obtain unchanged | ⟨after, saves, done, -, -, -, saved⟩ := guard.onHealthy_cases outcome
  · rw [unchanged]
    exact remembers_nothing
  · rw [done]
    have remembers := remembers_saves saved (magic.trans synced.magic) settled
    cases guard.awaiting with
    | false => exact remembers
    | true => exact List.forall_mem_cons.mpr ⟨remembers_quiet fun _ => nofun, remembers⟩

theorem Synced.tick_remembers (synced : Synced flash guard) (known : guard.st.KnowsBad sha256)
    (nowMs : UInt32)
    (keeps : (guard.awaiting && !guard.rollbackRequested &&
      decide (guard.timeoutMs ≤ nowMs - guard.bootMs) && guard.st.pendingIs guard.running &&
      guard.st.displaces) = false) :
    ∀ call ∈ (guard.tick nowMs outcome).2.map FlashCall.guard, call.Remembers sha256 := by
  unfold OtaGuard.tick
  split
  next => exact remembers_nothing
  next waits =>
    split
    next => exact remembers_nothing
    next late =>
      rw [List.map_append]
      refine List.forall_mem_append.mpr ⟨?_, List.forall_mem_singleton.mpr ?_⟩
      · split
        next noted =>
          have overdue : guard.timeoutMs ≤ nowMs - guard.bootMs := UInt32.not_lt.mp late
          have waiting : guard.awaiting = true ∧ guard.rollbackRequested = false := by
            simpa using waits
          have same : guard.st.displaces = false := by
            simpa [waiting, overdue, noted] using keeps
          exact remembers_saves (OtaGuard.saves_save _ _) synced.magic (known.notePendingBad same)
        next => exact remembers_nothing
      · exact remembers_quiet fun _ => nofun

theorem confirmDeadline_remembers :
    ∀ call ∈ guard.onConfirmDeadline.map FlashCall.guard, call.Remembers sha256 := by
  unfold OtaGuard.onConfirmDeadline
  split
  next => exact List.forall_mem_singleton.mpr (remembers_quiet fun _ => nofun)
  next => exact remembers_nothing

theorem Synced.applyOta_remembers (synced : Synced flash guard) (known : guard.st.KnowsBad sha256)
    (offer : Offer) (flashing : Flashing) :
    ∀ call ∈ (Ota.applyOta release guard offer flashing outcome).2.1, call.Remembers sha256 := by
  obtain ⟨-, applied⟩ := applyOta_spec release guard offer flashing outcome
  generalize (Ota.applyOta release guard offer flashing outcome).2 = done at applied
  obtain ⟨calls, result⟩ := done
  cases applied with
  | refused => exact remembers_nothing
  | failed accepted unapplied harmless =>
      exact fun call member => (harmless call member).remembers synced.magic known
  | applied accepted length verified keeps =>
      refine List.forall_mem_cons.mpr ⟨remembers_quiet fun _ => nofun, List.forall_mem_cons.mpr
        ⟨remembers_quiet fun _ => nofun, List.forall_mem_cons.mpr
        ⟨(Harmless.save keeps).remembers synced.magic known, List.forall_mem_singleton.mpr ?_⟩⟩⟩
      exact remembers_quiet fun _ => nofun

end

namespace Terminal

variable {builtAs : List UInt8 → List UInt8} {release : Release} {terminal next : Terminal}
  {sha256 : Sha256}

def Synced (terminal : Terminal) : Prop :=
  ∀ guard, terminal.power = .on guard → Ota.Synced terminal.flash guard

theorem Synced.performed (synced : terminal.Synced) {operation : Operation} {outcome : Outcome}
    {after : Option OtaGuard} {calls : List FlashCall}
    (saves : (Event.complete operation outcome).saves = true)
    (performed : terminal.perform builtAs release operation outcome = some (after, calls)) :
    ∀ guard, after = some guard → Ota.Synced (terminal.flash.performAll calls) guard := by
  obtain ⟨saved, cleared⟩ := Bool.and_eq_true_iff.mp saves
  obtain ⟨flash, power⟩ := terminal
  cases power with
  | off => cases operation <;> cases performed
  | started =>
      cases operation <;> cases performed
      intro guard same
      cases same
      exact synced_begin _ _ _ _ saved
  | on before =>
      have synced : Ota.Synced flash before := synced before rfl
      cases operation with
      | begin => cases performed
      | onHealthy =>
          cases performed
          exact fun _ same => Option.some.inj same ▸ synced.onHealthy saved
      | tick nowMs =>
          cases performed
          exact fun _ same => Option.some.inj same ▸ synced.tick nowMs saved
      | confirmDeadline =>
          cases performed
          exact synced.confirmDeadline
      | install offer flashing =>
          cases performed
          exact synced.install offer flashing saved cleared

theorem Synced.remembers (synced : terminal.Synced) (known : terminal.flash.record.KnowsBad sha256)
    {operation : Operation} {outcome : Outcome} {after : Option OtaGuard} {calls : List FlashCall}
    (keeps : terminal.displaces builtAs (.complete operation outcome) = false)
    (performed : terminal.perform builtAs release operation outcome = some (after, calls)) :
    ∀ call ∈ calls, call.Remembers sha256 := by
  obtain ⟨flash, power⟩ := terminal
  cases power with
  | off => cases operation <;> cases performed
  | started =>
      cases operation with
      | begin timeoutMs nowMs =>
          cases performed
          exact begin_remembers known timeoutMs _ flash.device.runningPending nowMs keeps
      | _ => cases performed
  | on guard =>
      have synced : Ota.Synced flash guard := synced guard rfl
      have known : guard.st.KnowsBad sha256 := by
        rw [← synced]
        exact known
      cases operation with
      | begin => cases performed
      | onHealthy =>
          cases performed
          exact synced.onHealthy_remembers known
      | tick nowMs =>
          cases performed
          exact synced.tick_remembers known nowMs keeps
      | confirmDeadline =>
          cases performed
          exact confirmDeadline_remembers
      | install offer flashing =>
          cases performed
          exact synced.applyOta_remembers known offer flashing

theorem synced_fresh (image : List UInt8) : (fresh image).Synced := by
  intro guard impossible
  cases impossible

theorem Synced.step (synced : terminal.Synced) {event : Event} (saves : event.saves = true)
    (taken : terminal.step builtAs release event = some next) : next.Synced := by
  cases event with
  | powerOn =>
      obtain ⟨-, rfl⟩ := step_powerOn taken
      intro guard impossible
      cases impossible
  | complete operation outcome =>
      obtain ⟨after, calls, performed, flash, power⟩ := step_complete taken
      intro guard on
      rw [power] at on
      rw [flash]
      cases after with
      | none => cases on
      | some after =>
          cases on
          exact synced.performed saves performed guard rfl
  | cut operation outcome performed =>
      obtain ⟨after, calls, performs, rfl⟩ := step_cut taken
      intro guard impossible
      cases impossible
  | powerOff =>
      cases taken
      intro guard impossible
      cases impossible

/-- One event without a second bad image. -/
theorem Synced.step_remembers (synced : terminal.Synced)
    (known : terminal.flash.record.KnowsBad sha256) {event : Event}
    (keeps : terminal.displaces builtAs event = false)
    (taken : terminal.step builtAs release event = some next) :
    next.flash.record.KnowsBad sha256 := by
  cases event with
  | powerOn =>
      obtain ⟨-, rfl⟩ := step_powerOn taken
      exact known
  | complete operation outcome =>
      obtain ⟨after, calls, performed, flash, -⟩ := step_complete taken
      have throughout := throughout_remembers known (synced.remembers known keeps performed)
      have final := throughout.take calls.length
      rw [List.take_length] at final
      rw [flash]
      exact final
  | cut operation outcome performed =>
      obtain ⟨after, calls, performs, rfl⟩ := step_cut taken
      exact (throughout_remembers known (synced.remembers known keeps performs)).take performed
  | powerOff =>
      cases taken
      exact known

end Terminal

theorem OtaGuard.check_knownBad {guard : OtaGuard} {sha256 : Sha256}
    (known : guard.st.KnowsBad sha256) (version : List UInt8) :
    guard.check version sha256 ≠ .accept := by
  intro accepted
  obtain ⟨-, -, -, -, -, -, unknown⟩ := OtaGuard.check_accept accepted
  exact unknown ⟨known.1, known.2.symm⟩

/-- An image on record as bad is refused in every later state, as long as no boot and
no tick gives up another image. -/
theorem rolled_back_image_refused {builtAs : List UInt8 → List UInt8} {release : Release}
    {original : List UInt8} {sha256 : Sha256} {early later : List Event}
    {recorded final : Terminal}
    (saves : ∀ event ∈ early ++ later, event.saves = true)
    (ran : run (Terminal.step builtAs release) (.fresh original) early = some recorded)
    (bad : recorded.flash.record.KnowsBad sha256)
    (keeps : Along (Terminal.step builtAs release)
      (fun terminal event => terminal.displaces builtAs event = false) recorded later)
    (ranLater : run (Terminal.step builtAs release) recorded later = some final) :
    ∀ guard version, final.power = .on guard → guard.check version sha256 ≠ .accept := by
  obtain ⟨savesEarly, savesLater⟩ := List.forall_mem_append.mp saves
  have synced : recorded.Synced :=
    Along.invariant (fun _ _ _ synced saves taken => synced.step saves taken)
      (Terminal.synced_fresh original) (along_of_forall savesEarly) ran
  have preserved : ∀ (terminal : Terminal) (event : Event) (next : Terminal),
      terminal.Synced ∧ terminal.flash.record.KnowsBad sha256 →
      event.saves = true ∧ terminal.displaces builtAs event = false →
      terminal.step builtAs release event = some next →
      next.Synced ∧ next.flash.record.KnowsBad sha256 := by
    intro terminal event next holds allowed taken
    exact ⟨holds.1.step allowed.1 taken, holds.1.step_remembers holds.2 allowed.2 taken⟩
  have kept := Along.invariant preserved ⟨synced, bad⟩ ((along_of_forall savesLater).and keeps)
    ranLater
  intro guard version on
  have known : guard.st.KnowsBad sha256 := by
    rw [← kept.1 guard on]
    exact kept.2
  exact OtaGuard.check_knownBad known version

/-! Two updates fail one after the other.  The first is refused until the second is
recorded over it, and is then accepted. -/

/-- The update comes up, is never confirmed, and the terminal is back where it was. -/
def sampleGivenUp (image : List UInt8) : List Event :=
  sampleUpdate image ++
    [.powerOn, .complete (.begin 60000 0) sampleOutcome, .powerOff,
      .powerOn, .complete (.begin 60000 0) sampleOutcome]

def sampleRun (events : List Event) : Option Terminal :=
  run (Terminal.step sampleBuiltAs sampleRelease) (.fresh [1]) events

/-- The terminal with the first image on record. -/
def sampleRecorded : Terminal := (sampleRun (sampleGivenUp [2, 2])).getD (.fresh [1])

theorem sampleRecorded_ran : sampleRun (sampleGivenUp [2, 2]) = some sampleRecorded := by
  have possible : (sampleRun (sampleGivenUp [2, 2])).isSome = true := by decide +kernel
  exact (Option.getD_of_ne_none (Option.isSome_iff_ne_none.mp possible) _).symm

theorem sampleRecorded_knowsBad : sampleRecorded.flash.record.KnowsBad (digest [2, 2]) := by
  decide +kernel

/-- The guard at the end of a run that goes on from there. -/
def sampleGuard (later : List Event) : Option OtaGuard :=
  match run (Terminal.step sampleBuiltAs sampleRelease) sampleRecorded later with
  | some ⟨_, .on guard⟩ => some guard
  | _ => none

theorem sampleGuard_ran {later : List Event} {guard : OtaGuard} (on : sampleGuard later = some guard) :
    ∃ final, run (Terminal.step sampleBuiltAs sampleRelease) sampleRecorded later = some final ∧
      final.power = .on guard := by
  unfold sampleGuard at on
  split at on
  next flash found ran =>
    cases on
    exact ⟨_, ran, rfl⟩
  next => cases on

theorem rolled_back_image_refused_sample :
    ∃ guard, sampleGuard [.complete .onHealthy sampleOutcome] = some guard ∧
      guard.check (sampleBuiltAs [2, 2]) (digest [2, 2]) ≠ .accept := by
  have on : (sampleGuard [.complete .onHealthy sampleOutcome]).isSome = true := by decide +kernel
  obtain ⟨guard, reached⟩ := Option.isSome_iff_exists.mp on
  obtain ⟨final, ran, power⟩ := sampleGuard_ran reached
  refine ⟨guard, reached, ?_⟩
  exact rolled_back_image_refused (by decide +kernel) sampleRecorded_ran sampleRecorded_knowsBad
    (by decide +kernel) ran guard _ power

def sampleSecond : List Event :=
  .complete .onHealthy sampleOutcome :: .powerOff :: sampleGivenUp [3, 3, 3]

theorem rolled_back_image_accepted :
    (∀ event ∈ sampleGivenUp [2, 2] ++ sampleSecond, event.saves = true) ∧
    sampleRun (sampleGivenUp [2, 2]) = some sampleRecorded ∧
    sampleRecorded.flash.record.KnowsBad (digest [2, 2]) ∧
    ∃ final guard, run (Terminal.step sampleBuiltAs sampleRelease) sampleRecorded sampleSecond =
        some final ∧
      final.power = .on guard ∧ guard.check (sampleBuiltAs [2, 2]) (digest [2, 2]) = .accept := by
  have accepted : (sampleGuard sampleSecond).map
      (OtaGuard.check · (sampleBuiltAs [2, 2]) (digest [2, 2])) = some .accept := by
    decide +kernel
  obtain ⟨guard, reached, checked⟩ := Option.map_eq_some_iff.mp accepted
  obtain ⟨final, ran, power⟩ := sampleGuard_ran reached
  exact ⟨by decide +kernel, sampleRecorded_ran, sampleRecorded_knowsBad, final, guard, ran, power,
    checked⟩

end Presence.Ota
