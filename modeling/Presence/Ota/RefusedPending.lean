import Presence.Ota.RolledBack

namespace Presence.Ota

open Presence.Data Presence.Firmware

/-! # A pending record that NVS refused

`notePending` changes the guard's copy of the blob and then asks NVS to take it.  When
NVS refuses, the update is given up but the copy stays as it is, and the next save of
the boot writes it.
-/

/-- The blob holds the update, as the pending one or as the bad one. -/
def OtaPersistedState.Names (st : OtaPersistedState) (offer : Offer) : Prop :=
  st.hasPending = true ∧
      (some st.pendingVersion = parseOtaVersion offer.version ∨ st.pendingSha = offer.sha256) ∨
    st.KnowsBad offer.sha256

def couldNotRecord : OtaResult := .transient "could not record the pending update in NVS"

def Event.started : Event → Option (Operation × Outcome)
  | .complete operation outcome | .cut operation outcome _ => some (operation, outcome)
  | _ => none

namespace Terminal

section

variable (builtAs : List UInt8 → List UInt8) (release : Release)

/-- The calls of an event that took effect. -/
def performed (terminal : Terminal) : Event → List FlashCall
  | .complete operation outcome =>
      match terminal.perform builtAs release operation outcome with
      | none => []
      | some (_, calls) => calls
  | .cut operation outcome performed =>
      match terminal.perform builtAs release operation outcome with
      | none => []
      | some (_, calls) => calls.take performed
  | _ => []

/-- The save is the one of a `notePending` that returns true. -/
def Notes (terminal : Terminal) (event : Event) (st : OtaPersistedState) : Prop :=
  ∃ guard offer flashing outcome, terminal.power = .on guard ∧
    event.started = some (.install offer flashing, outcome) ∧
    (guard.notePending offer.version offer.sha256 outcome).2.2 = true ∧
    Call.save st ∈ (guard.notePending offer.version offer.sha256 outcome).2.1

/-- What may happen until the end of the boot saves the update only where a later
`notePending` of it returns true, and the boot after that neither reports it nor puts
it on record as bad, whatever build it runs. -/
structure LeavesNoTrace (offer : Offer) (terminal : Terminal) : Prop where
  saves : ∀ later, (∀ event ∈ later, event ≠ .powerOn) →
    Along (Terminal.step builtAs release)
      (fun terminal event => ∀ st, .guard (.save st) ∈ terminal.performed builtAs release event →
        st.Names offer → terminal.Notes event st) terminal later
  nextBoot : ∀ later final, (∀ event ∈ later, event ≠ .powerOn) →
    Along (Terminal.step builtAs release)
      (fun terminal event => ∀ st, .guard (.save st) ∈ terminal.performed builtAs release event →
        terminal.Notes event st → st.pendingSha ≠ offer.sha256) terminal later →
    run (Terminal.step builtAs release) terminal later = some final →
    ∀ timeoutMs runningVersion pendingVerify nowMs outcome,
      let booted := (OtaGuard.begin timeoutMs final.flash.nvs runningVersion pendingVerify nowMs
        outcome).1
      (booted.kind = .rolledBack → final.flash.record.pendingSha ≠ offer.sha256) ∧
        (booted.st.KnowsBad offer.sha256 → final.flash.record.KnowsBad offer.sha256)

end

end Terminal

/-! ## What an update saves -/

section

variable {release : Release} {guard : OtaGuard} {offer : Offer} {flashing : Flashing}
  {outcome : Outcome} {flash : Flash} {sha256 : Sha256}

/-- An update either stops before it has something to record, or is decided by the
commit. -/
theorem applyOta_commit (release : Release) (guard : OtaGuard) (offer : Offer)
    (flashing : Flashing) (outcome : Outcome) :
    let done := applyOta release guard offer flashing outcome
    (done.1 = guard ∧ (∀ st, .guard (.save st) ∉ done.2.1) ∧ done.2.2 ≠ couldNotRecord) ∨
      guard.check offer.version offer.sha256 = .accept ∧
        ∃ written, (∀ st, FlashCall.guard (.save st) ∉ written) ∧
          done = ((commitOta guard offer flashing outcome).1,
            written ++ (commitOta guard offer flashing outcome).2.1,
            (commitOta guard offer flashing outcome).2.2) := by
  simp only [applyOta]
  split
  next => exact .inl ⟨rfl, by simp, by simp [couldNotRecord]⟩
  next =>
  split
  next => exact .inl ⟨rfl, by simp, by simp [couldNotRecord]⟩
  next =>
  split
  next => exact .inl ⟨rfl, by simp, by simp [couldNotRecord]⟩
  next accepted =>
  split
  next => exact .inl ⟨rfl, by simp, by simp [couldNotRecord]⟩
  next =>
  split
  next => exact .inl ⟨rfl, by simp, by simp [couldNotRecord]⟩
  next =>
  split
  next =>
    refine .inl ⟨rfl, fun st => ?_, by simp [couldNotRecord]⟩
    dsimp only
    split <;> simp
  next =>
    simp only [storeOta]
    cases flashing.transfer with
    | truncated => exact .inl ⟨rfl, by simp, by simp [couldNotRecord]⟩
    | writeFailed => exact .inl ⟨rfl, by simp, by simp [couldNotRecord]⟩
    | complete content =>
        dsimp only
        iterate 4
          split
          next => exact .inl ⟨rfl, by simp, by simp [couldNotRecord]⟩
        exact .inr ⟨not_not.mp accepted, _, by simp, rfl⟩

/-- Nothing in RAM is left for the rest of the boot to save. -/
structure OtaGuard.Idle (guard : OtaGuard) (sha256 : Sha256) : Prop where
  confirmed : guard.awaiting = false
  nothing : guard.healthy = true ∨ ∀ running, guard.running = some running → running ≤ guard.st.floor
  ahead : guard.st.pendingIs guard.running = false
  unknown : ¬ guard.st.KnowsBad sha256

/-- The floor has nothing to rise to. -/
theorem OtaGuard.raised_eq (reached : ∀ running, guard.running = some running → running ≤ guard.st.floor) :
    guard.raised = guard.st := by
  obtain same | ⟨running, known, higher, -⟩ := guard.raised_spec
  · exact same
  · exact absurd (reached running known) (UInt64.not_le.mpr higher)

theorem OtaGuard.Idle.settled (idle : guard.Idle sha256)
    (reached : ∀ running, guard.running = some running → running ≤ guard.st.floor) :
    guard.settled = guard.st := by
  have raised := OtaGuard.raised_eq reached
  simp only [OtaGuard.settled, raised, idle.ahead]
  rfl

theorem OtaGuard.Idle.onHealthy (idle : guard.Idle sha256) (outcome : Outcome) :
    (guard.onHealthy outcome).1.Idle sha256 ∧ (guard.onHealthy outcome).2 = [] := by
  unfold OtaGuard.onHealthy
  split
  next => exact ⟨idle, rfl⟩
  next unhealthy =>
    have reached := idle.nothing.resolve_left unhealthy
    simp only [idle.confirmed, Bool.false_and, Bool.false_eq_true, if_false, idle.settled reached]
    exact ⟨⟨rfl, .inl rfl, idle.ahead, idle.unknown⟩, rfl⟩

theorem OtaGuard.Idle.tick (idle : guard.Idle sha256) (nowMs : UInt32) (outcome : Outcome) :
    guard.tick nowMs outcome = (guard, []) := by
  simp [OtaGuard.tick, idle.confirmed]

/-- The save of a commit is the one of `notePending`, or the one that clears the record
again. -/
theorem OtaGuard.Idle.commitOta (idle : guard.Idle sha256)
    (accepted : guard.check offer.version offer.sha256 = .accept) (flashing : Flashing)
    (outcome : Outcome) :
    let done := commitOta guard offer flashing outcome
    done.1.Idle sha256 ∧ ∀ st, .guard (.save st) ∈ done.2.1 →
      (guard.notePending offer.version offer.sha256 outcome).2.2 = true ∧
          Call.save st ∈ (guard.notePending offer.version offer.sha256 outcome).2.1 ∨
        st.hasPending = false ∧ ¬ st.KnowsBad sha256 := by
  obtain ⟨running, candidate, known, -, read, newer, -⟩ := OtaGuard.check_accept accepted
  have other : (some running == some candidate) = false := by
    have ne : running ≠ candidate := (UInt64.ne_of_lt newer)
    simpa using ne
  have noted : ∀ {saved : OtaPersistedState}, saved = { guard.st with
      hasPending := true, pendingVersion := candidate, pendingSha := offer.sha256 } →
      ({ guard with st := saved } : OtaGuard).Idle sha256 := by
    rintro _ rfl
    refine ⟨idle.confirmed, idle.nothing, ?_, idle.unknown⟩
    simp only [OtaPersistedState.pendingIs, known, other, Bool.and_false]
  have cleared : ∀ {saved : OtaPersistedState}, saved = { guard.st with
      hasPending := false, pendingVersion := candidate, pendingSha := offer.sha256 } →
      ({ guard with st := saved } : OtaGuard).Idle sha256 := by
    rintro _ rfl
    exact ⟨idle.confirmed, idle.nothing, rfl, idle.unknown⟩
  simp only [Ota.commitOta, OtaGuard.notePending, read]
  cases saved : outcome.saved with
  | false => exact ⟨noted rfl, by simp [OtaGuard.save, saved]⟩
  | true =>
      cases flashing.bootSet with
      | true =>
          refine ⟨noted rfl, fun st member => .inl ⟨rfl, ?_⟩⟩
          simpa [OtaGuard.save, saved] using member
      | false =>
          refine ⟨cleared rfl, fun st member => ?_⟩
          simp only [OtaGuard.clearPending, OtaGuard.save, saved, if_true] at member ⊢
          rcases List.mem_append.mp member with early | late
          · rcases List.mem_append.mp early with first | second
            · exact .inl ⟨trivial, by simpa using first⟩
            · refine .inr ?_
              split at second
              · simp only [List.map_cons, List.map_nil, List.mem_singleton, FlashCall.guard.injEq,
                  Call.save.injEq] at second
                rw [second]
                exact ⟨rfl, idle.unknown⟩
              · simp at second
          · simp at late

theorem OtaGuard.Idle.applyOta (idle : guard.Idle sha256) (release : Release) (offer : Offer)
    (flashing : Flashing) (outcome : Outcome) :
    let done := applyOta release guard offer flashing outcome
    done.1.Idle sha256 ∧ ∀ st, .guard (.save st) ∈ done.2.1 →
      (guard.notePending offer.version offer.sha256 outcome).2.2 = true ∧
          Call.save st ∈ (guard.notePending offer.version offer.sha256 outcome).2.1 ∨
        st.hasPending = false ∧ ¬ st.KnowsBad sha256 := by
  intro done
  obtain ⟨kept, none, -⟩ | ⟨accepted, written, none, same⟩ :=
    applyOta_commit release guard offer flashing outcome
  · exact ⟨kept ▸ idle, fun st member => absurd member (none st)⟩
  · rw [show done = _ from same]
    obtain ⟨after, saves⟩ := idle.commitOta accepted flashing outcome
    refine ⟨after, fun st member => saves st ?_⟩
    exact (List.mem_append.mp member).resolve_left (none st)

/-- NVS holds the image as pending. -/
def Flash.Awaits (flash : Flash) (sha256 : Sha256) : Prop :=
  flash.record.hasPending = true ∧ flash.record.pendingSha = sha256

theorem not_awaits_performAll {calls : List FlashCall} (other : ¬ flash.Awaits sha256)
    (saves : ∀ st, .guard (.save st) ∈ calls → ¬ (st.hasPending = true ∧ st.pendingSha = sha256)) :
    ¬ (flash.performAll calls).Awaits sha256 := by
  have throughout : Throughout Flash.perform (fun flash => ¬ flash.Awaits sha256) flash calls := by
    refine throughout_of_preserved other fun flash call member before => ?_
    match call with
    | .guard (.save st) =>
        change ¬ ((OtaPersistedState.usable (some st)).hasPending = true ∧
          (OtaPersistedState.usable (some st)).pendingSha = sha256)
        simp only [OtaPersistedState.usable]
        split
        next => exact saves st member
        next => exact fun pending => Bool.noConfusion pending.1
    | .guard .markValid | .guard .rollback | .guard .restart | .eraseIdle | .writeIdle _
    | .setBootIdle => exact before
  have final := throughout.take calls.length
  rw [List.take_length] at final
  exact final

/-- The boot blames the image that NVS holds as pending, and no other. -/
theorem begin_of_not_awaits (other : ¬ flash.Awaits sha256) (timeoutMs : UInt32)
    (runningVersion : List UInt8) (pendingVerify : Bool) (nowMs : UInt32) (outcome : Outcome) :
    let booted := (OtaGuard.begin timeoutMs flash.nvs runningVersion pendingVerify nowMs outcome).1
    (booted.kind = .rolledBack → flash.record.pendingSha ≠ sha256) ∧
      (booted.st.KnowsBad sha256 → flash.record.KnowsBad sha256) := by
  intro booted
  by_cases pending : flash.record.hasPending = true
  · have different : flash.record.pendingSha ≠ sha256 := fun same => other ⟨pending, same⟩
    refine ⟨fun _ => different, fun known => ?_⟩
    simp only [booted, OtaGuard.begin] at known
    split at known
    next => exact absurd known.2 different
    next => exact known
  · have none : (OtaPersistedState.usable flash.nvs).hasPending = false := Bool.eq_false_iff.mpr pending
    simp only [booted, OtaGuard.begin, none, Bool.false_and, Bool.false_eq_true, if_false]
    refine ⟨fun kind => ?_, fun known => known⟩
    split at kind <;> cases kind

end

namespace Terminal

variable {builtAs : List UInt8 → List UInt8} {release : Release} {terminal next : Terminal}
  {sha256 : Sha256}

/-- The boot is over, or its guard has nothing left to save. -/
structure Idle (terminal : Terminal) (sha256 : Sha256) : Prop where
  started : terminal.power ≠ .started
  guard : ∀ guard, terminal.power = .on guard → guard.Idle sha256

theorem Idle.perform (idle : terminal.Idle sha256) {operation : Operation} {outcome : Outcome}
    {after : Option OtaGuard} {calls : List FlashCall}
    (performed : terminal.perform builtAs release operation outcome = some (after, calls)) :
    (∀ guard, after = some guard → guard.Idle sha256) ∧
      ∀ event, event.started = some (operation, outcome) → ∀ st, .guard (.save st) ∈ calls →
        terminal.Notes event st ∨ st.hasPending = false ∧ ¬ st.KnowsBad sha256 := by
  obtain ⟨flash, power⟩ := terminal
  cases power with
  | off => cases operation <;> cases performed
  | started => exact absurd rfl idle.started
  | on guard =>
      have idle : guard.Idle sha256 := idle.guard guard rfl
      cases operation with
      | begin => cases performed
      | onHealthy =>
          obtain ⟨after, none⟩ := idle.onHealthy outcome
          change some (some (guard.onHealthy outcome).1,
            (guard.onHealthy outcome).2.map FlashCall.guard) = some _ at performed
          rw [none] at performed
          cases performed
          exact ⟨fun _ same => Option.some.inj same ▸ after, by simp⟩
      | tick nowMs =>
          change some (some (guard.tick nowMs outcome).1,
            (guard.tick nowMs outcome).2.map FlashCall.guard) = some _ at performed
          rw [idle.tick] at performed
          cases performed
          exact ⟨fun _ same => Option.some.inj same ▸ idle, by simp⟩
      | confirmDeadline =>
          simp only [Terminal.perform, OtaGuard.onConfirmDeadline, idle.confirmed] at performed
          cases performed
          exact ⟨fun _ same => Option.some.inj same ▸ idle, by simp⟩
      | install offer flashing =>
          obtain ⟨after, saves⟩ := idle.applyOta release offer flashing outcome
          change (let done := applyOta release guard offer flashing outcome
            some (if done.2.2 = .applied then none else some done.1, done.2.1)) = some _ at performed
          generalize applyOta release guard offer flashing outcome = done at after saves performed
          cases performed
          refine ⟨fun other same => ?_, fun event started st member => ?_⟩
          · split at same
            next => cases same
            next => exact Option.some.inj same ▸ after
          · obtain ⟨noted, saved⟩ | harmless := saves st member
            · exact .inl ⟨guard, offer, flashing, outcome, rfl, started, noted, saved⟩
            · exact .inr harmless

theorem Idle.performed (idle : terminal.Idle sha256) (event : Event) :
    ∀ st, .guard (.save st) ∈ terminal.performed builtAs release event →
      terminal.Notes event st ∨ st.hasPending = false ∧ ¬ st.KnowsBad sha256 := by
  intro st member
  cases event with
  | powerOn => cases member
  | powerOff => cases member
  | complete operation outcome =>
      simp only [Terminal.performed] at member
      split at member
      next => cases member
      next after calls performed => exact (idle.perform performed).2 _ rfl st member
  | cut operation outcome count =>
      simp only [Terminal.performed] at member
      split at member
      next => cases member
      next after calls performed =>
        exact (idle.perform performed).2 _ rfl st (List.mem_of_mem_take member)

theorem Idle.step (idle : terminal.Idle sha256) {event : Event} (booted : event ≠ .powerOn)
    (taken : terminal.step builtAs release event = some next) : next.Idle sha256 := by
  cases event with
  | powerOn => exact absurd rfl booted
  | powerOff =>
      cases taken
      exact ⟨by simp, by simp⟩
  | cut operation outcome count =>
      obtain ⟨after, calls, performs, rfl⟩ := step_cut taken
      exact ⟨by simp, by simp⟩
  | complete operation outcome =>
      obtain ⟨after, calls, performed, -, power⟩ := step_complete taken
      have ends := (idle.perform performed).1
      cases after with
      | none => exact ⟨by simp [power], by simp [power]⟩
      | some guard =>
          refine ⟨by simp [power], fun other same => ?_⟩
          cases power.symm.trans same
          exact ends guard rfl

theorem step_flash {event : Event} (booted : event ≠ .powerOn)
    (taken : terminal.step builtAs release event = some next) :
    next.flash = terminal.flash.performAll (terminal.performed builtAs release event) := by
  cases event with
  | powerOn => exact absurd rfl booted
  | powerOff =>
      cases taken
      rfl
  | cut operation outcome count =>
      obtain ⟨after, calls, performs, rfl⟩ := step_cut taken
      simp only [Terminal.performed, performs]
  | complete operation outcome =>
      obtain ⟨after, calls, performed, flash, -⟩ := step_complete taken
      simp only [Terminal.performed, performed, flash]

theorem Idle.leavesNoTrace {offer : Offer} (idle : terminal.Idle offer.sha256)
    (other : ¬ terminal.flash.Awaits offer.sha256) : terminal.LeavesNoTrace builtAs release offer where
  saves later sameBoot := by
    have preserved : ∀ (terminal : Terminal) (event : Event) (next : Terminal),
        terminal.Idle offer.sha256 → event ≠ .powerOn →
        terminal.step builtAs release event = some next → next.Idle offer.sha256 :=
      fun _ _ _ idle booted taken => idle.step booted taken
    refine along_of_invariant preserved ?_ idle sameBoot
    intro terminal event idle _ st member names
    obtain noted | ⟨cleared, unknown⟩ := idle.performed event st member
    · exact noted
    · obtain ⟨pending, -⟩ | known := names
      · exact absurd (cleared.symm.trans pending) (by decide)
      · exact absurd known unknown
  nextBoot later final sameBoot unnoted ran := by
    have preserved : ∀ (terminal : Terminal) (event : Event) (next : Terminal),
        terminal.Idle offer.sha256 ∧ ¬ terminal.flash.Awaits offer.sha256 →
        event ≠ .powerOn ∧ (∀ st, .guard (.save st) ∈ terminal.performed builtAs release event →
          terminal.Notes event st → st.pendingSha ≠ offer.sha256) →
        terminal.step builtAs release event = some next →
        next.Idle offer.sha256 ∧ ¬ next.flash.Awaits offer.sha256 := by
      intro terminal event next holds allowed taken
      refine ⟨holds.1.step allowed.1 taken, ?_⟩
      rw [step_flash allowed.1 taken]
      apply not_awaits_performAll holds.2
      intro st member pending
      obtain noted | ⟨cleared, -⟩ := holds.1.performed event st member
      · exact allowed.2 st member noted pending.2
      · exact absurd (cleared.symm.trans pending.1) (by decide)
    have kept := Along.invariant preserved ⟨idle, other⟩ ((along_of_forall sameBoot).and unnoted) ran
    exact begin_of_not_awaits kept.2

end Terminal

/-! ## Exactly when -/

section

variable {builtAs : List UInt8 → List UInt8} {release : Release} {flash : Flash} {guard : OtaGuard}
  {offer : Offer} {flashing : Flashing} {outcome : Outcome}

/-- The copy that a refused record leaves behind. -/
def OtaGuard.dirtied (guard : OtaGuard) (candidate : UInt64) (offer : Offer) : OtaGuard :=
  { guard with
    st := { guard.st with
      hasPending := true, pendingVersion := candidate, pendingSha := offer.sha256 } }

/-- NVS holds what it held, and the guard does not. -/
theorem applyOta_refused
    (refused : (applyOta release guard offer flashing outcome).2.2 = couldNotRecord) :
    ∃ running candidate, guard.running = some running ∧ guard.awaiting = false ∧
      parseOtaVersion offer.version = some candidate ∧ running < candidate ∧
      ¬ guard.st.KnowsBad offer.sha256 ∧
      (applyOta release guard offer flashing outcome).1 = guard.dirtied candidate offer ∧
      ∀ st, .guard (.save st) ∉ (applyOta release guard offer flashing outcome).2.1 := by
  obtain ⟨-, -, other⟩ | ⟨accepted, written, none, same⟩ :=
    applyOta_commit release guard offer flashing outcome
  · exact absurd refused other
  · obtain ⟨running, candidate, known, confirmed, read, newer, unknown⟩ := OtaGuard.check_accept accepted
    have unknown : ¬ guard.st.KnowsBad offer.sha256 := fun bad => unknown ⟨bad.1, bad.2.symm⟩
    refine ⟨running, candidate, known, confirmed, read, newer, unknown, ?_⟩
    rw [same] at refused ⊢
    simp only [commitOta, OtaGuard.notePending, read] at refused ⊢
    cases saved : outcome.saved with
    | false => exact ⟨rfl, by simp [OtaGuard.save, saved, none]⟩
    | true => cases booted : flashing.bootSet <;> simp [saved, booted, couldNotRecord] at refused

end

theorem nvs_performAll {flash : Flash} {calls : List FlashCall}
    (none : ∀ st, .guard (.save st) ∉ calls) : (flash.performAll calls).nvs = flash.nvs := by
  have throughout : Throughout Flash.perform (fun after => after.nvs = flash.nvs) flash calls := by
    refine throughout_of_preserved rfl fun after call member before => ?_
    match call with
    | .guard (.save st) => exact absurd member (none st)
    | .guard .markValid | .guard .rollback | .guard .restart | .eraseIdle | .writeIdle _
    | .setBootIdle => exact before
  have final := throughout.take calls.length
  rw [List.take_length] at final
  exact final

/-- The first heartbeat of the boot writes the whole copy. -/
theorem OtaGuard.onHealthy_dirtied {guard : OtaGuard} {offer : Offer} {outcome : Outcome}
    {running candidate : UInt64} (known : guard.running = some running)
    (confirmed : guard.awaiting = false) (newer : running < candidate)
    (unhealthy : guard.healthy = false) (higher : guard.st.floor < running)
    (saved : outcome.saved = true) :
    ∃ st, ((guard.dirtied candidate offer).onHealthy outcome).2 = [.save st] ∧
      st.hasPending = true ∧ st.pendingVersion = candidate := by
  have other : (some running == some candidate) = false := by
    simpa using UInt64.ne_of_lt newer
  have settled : (guard.dirtied candidate offer).settled =
      { (guard.dirtied candidate offer).st with floor := running } := by
    have ahead : (true && some running == some candidate) = false := by rw [other, Bool.and_false]
    simp only [settled, raised, dirtied, known, higher, if_true, OtaPersistedState.pendingIs, ahead,
      Bool.false_eq_true, if_false]
  have dirty : (guard.dirtied candidate offer).settled ≠ (guard.dirtied candidate offer).st := by
    rw [settled]
    intro same
    exact UInt64.ne_of_lt higher (congrArg OtaPersistedState.floor same).symm
  have starts : (guard.dirtied candidate offer).healthy = false ∧
      (guard.dirtied candidate offer).awaiting = false := ⟨unhealthy, confirmed⟩
  refine ⟨(guard.dirtied candidate offer).settled, ?_, ?_, ?_⟩
  · simp only [onHealthy, starts, Bool.false_and, Bool.false_eq_true, if_false, if_neg dirty, save,
      saved, if_true, List.nil_append]
  · rw [settled]
    rfl
  · rw [settled]
    rfl

section

variable {builtAs : List UInt8 → List UInt8} {release : Release} {flash : Flash} {guard : OtaGuard}
  {offer : Offer} {flashing : Flashing} {outcome : Outcome} {after : Terminal}

/-- What the refusal leaves: the same NVS, and a guard that differs from it. -/
theorem step_refused
    (refused : (applyOta release guard offer flashing outcome).2.2 = couldNotRecord)
    (taken : Terminal.step builtAs release ⟨flash, .on guard⟩
      (.complete (.install offer flashing) outcome) = some after) :
    ∃ running candidate, guard.running = some running ∧ guard.awaiting = false ∧
      parseOtaVersion offer.version = some candidate ∧ running < candidate ∧
      ¬ guard.st.KnowsBad offer.sha256 ∧ after.power = .on (guard.dirtied candidate offer) ∧
      after.flash.nvs = flash.nvs := by
  obtain ⟨running, candidate, known, confirmed, read, newer, unknown, dirty, none⟩ :=
    applyOta_refused refused
  refine ⟨running, candidate, known, confirmed, read, newer, unknown, ?_⟩
  have unapplied : (applyOta release guard offer flashing outcome).2.2 ≠ .applied := by
    rw [refused]
    simp [couldNotRecord]
  simp only [Terminal.step, Terminal.perform, if_neg unapplied, dirty] at taken
  cases taken
  exact ⟨rfl, nvs_performAll none⟩

/-- The first heartbeat of the boot saves the refused record. -/
theorem not_leavesNoTrace
    (refused : (applyOta release guard offer flashing outcome).2.2 = couldNotRecord)
    (taken : Terminal.step builtAs release ⟨flash, .on guard⟩
      (.complete (.install offer flashing) outcome) = some after)
    (unhealthy : guard.healthy = false)
    (below : ∃ running, guard.running = some running ∧ guard.st.floor < running) :
    ¬ after.LeavesNoTrace builtAs release offer := by
  intro traceless
  obtain ⟨running, candidate, known, confirmed, read, newer, -, on, -⟩ := step_refused refused taken
  obtain ⟨other, same, higher⟩ := below
  rw [known] at same
  cases same
  obtain ⟨st, wrote, pending, version⟩ :=
    @OtaGuard.onHealthy_dirtied guard offer ⟨true, true, true⟩ _ _ known confirmed newer unhealthy
      higher rfl
  have along := traceless.saves [.complete .onHealthy ⟨true, true, true⟩] (by simp)
  have saved : FlashCall.guard (.save st) ∈
      after.performed builtAs release (.complete .onHealthy ⟨true, true, true⟩) := by
    simp [Terminal.performed, Terminal.perform, on, wrote]
  obtain ⟨_, _, _, _, -, started, -⟩ := along.1 st saved (.inl ⟨pending, .inl (by rw [version, read])⟩)
  cases started

end

/-- A refused record leaves no trace exactly when the guard of this boot has nothing to
write any more, and NVS did not hold the image as pending before. -/
theorem refused_record_leaves_no_trace_iff {builtAs : List UInt8 → List UInt8} {release : Release}
    {flash : Flash} {guard : OtaGuard} {offer : Offer} {flashing : Flashing} {outcome : Outcome}
    {after : Terminal}
    (refused : (applyOta release guard offer flashing outcome).2.2 = couldNotRecord)
    (taken : Terminal.step builtAs release ⟨flash, .on guard⟩
      (.complete (.install offer flashing) outcome) = some after) :
    after.LeavesNoTrace builtAs release offer ↔
      (guard.healthy = true ∨
          ∀ running, guard.running = some running → running ≤ guard.st.floor) ∧
        ¬ (flash.record.hasPending = true ∧ flash.record.pendingSha = offer.sha256) := by
  obtain ⟨running, candidate, known, confirmed, read, newer, unknown, on, nvs⟩ :=
    step_refused refused taken
  have same : after.flash.record = flash.record := congrArg OtaPersistedState.usable nvs
  constructor
  · intro traceless
    refine ⟨?_, fun awaits => ?_⟩
    · by_contra neither
      obtain ⟨unhealthy, below⟩ := not_or.mp neither
      refine not_leavesNoTrace refused taken (Bool.eq_false_iff.mpr unhealthy) ?_ traceless
      simpa using below
    · -- a build without a version sees the record at once
      have silent := (traceless.nextBoot [] after (by simp) trivial rfl 0 [] false 0 outcome).1
      rw [← same] at awaits
      have pending : (OtaPersistedState.usable after.flash.nvs).hasPending = true := awaits.1
      have unread : parseOtaVersion [] = none := by decide
      refine silent ?_ awaits.2
      simp [OtaGuard.begin, OtaPersistedState.pendingIs, pending, unread]
  · rintro ⟨settled, other⟩
    have idle : (guard.dirtied candidate offer).Idle offer.sha256 := by
      refine ⟨confirmed, settled, ?_, unknown⟩
      have different : running ≠ candidate := UInt64.ne_of_lt newer
      simpa [OtaGuard.dirtied, OtaPersistedState.pendingIs, known] using different
    refine Terminal.Idle.leavesNoTrace ⟨by simp [on], fun _ is => ?_⟩ ?_
    · exact Power.on.inj (on.symm.trans is) ▸ idle
    · simpa only [Flash.Awaits, same] using other

/-! The same refusal, after the first heartbeat of the boot and before it. -/

def sampleRefusal : Event :=
  .complete (.install (sampleOffer [2, 2]) (sampleFlashing [2, 2])) ⟨false, true, true⟩

def sampleMeets (early : List Event) (test : Flash → OtaGuard → Bool) : Bool :=
  match sampleRun early with
  | some ⟨flash, .on guard⟩ => test flash guard
  | _ => false

theorem sampleMeets_ran {early : List Event} {test : Flash → OtaGuard → Bool}
    (met : sampleMeets early test = true) :
    ∃ flash guard, sampleRun early = some ⟨flash, .on guard⟩ ∧ test flash guard = true := by
  unfold sampleMeets at met
  split at met
  next flash guard ran => exact ⟨flash, guard, ran, met⟩
  next => cases met

/-- NVS refuses the record. -/
def sampleRefuses (guard : OtaGuard) : Bool :=
  (applyOta sampleRelease guard (sampleOffer [2, 2]) (sampleFlashing [2, 2])
    ⟨false, true, true⟩).2.2 == couldNotRecord

theorem refused_record_leaves_no_trace_healthy :
    ∃ flash guard after,
      sampleRun [.powerOn, .complete (.begin 60000 0) sampleOutcome,
        .complete .onHealthy sampleOutcome] = some ⟨flash, .on guard⟩ ∧
      Terminal.step sampleBuiltAs sampleRelease ⟨flash, .on guard⟩ sampleRefusal = some after ∧
      after.LeavesNoTrace sampleBuiltAs sampleRelease (sampleOffer [2, 2]) := by
  have met : sampleMeets [.powerOn, .complete (.begin 60000 0) sampleOutcome,
      .complete .onHealthy sampleOutcome]
      (fun flash guard => sampleRefuses guard && (guard.healthy && !flash.record.hasPending)) = true := by
    decide +kernel
  obtain ⟨flash, guard, ran, test⟩ := sampleMeets_ran met
  obtain ⟨refused, settled⟩ := Bool.and_eq_true_iff.mp test
  obtain ⟨healthy, empty⟩ := Bool.and_eq_true_iff.mp settled
  refine ⟨flash, guard, _, ran, rfl, ?_⟩
  refine (refused_record_leaves_no_trace_iff (eq_of_beq refused) rfl).mpr ⟨.inl healthy, ?_⟩
  rintro ⟨pending, -⟩
  simp [pending] at empty

/-- The heartbeat saves what NVS refused, and the next boot blames an image that the
terminal never kept. -/
theorem refused_record_flushed :
    (¬ ∀ (builtAs : List UInt8 → List UInt8) (release : Release) (image : List UInt8)
        (early : List Event) (flash : Flash) (guard : OtaGuard) (offer : Offer) (flashing : Flashing)
        (outcome : Outcome) (after : Terminal),
        run (Terminal.step builtAs release) (.fresh image) early = some ⟨flash, .on guard⟩ →
        (applyOta release guard offer flashing outcome).2.2 = couldNotRecord →
        Terminal.step builtAs release ⟨flash, .on guard⟩
          (.complete (.install offer flashing) outcome) = some after →
        after.LeavesNoTrace builtAs release offer) ∧
    ∃ flash guard,
      sampleRun [.powerOn, .complete (.begin 60000 0) sampleOutcome, sampleRefusal,
        .complete .onHealthy sampleOutcome, .powerOff,
        .powerOn, .complete (.begin 60000 0) sampleOutcome] = some ⟨flash, .on guard⟩ ∧
      flash.device.slot .app1 = .blank ∧ guard.kind = .rolledBack ∧
      guard.st.KnowsBad (sampleOffer [2, 2]).sha256 := by
  constructor
  · intro all
    have met : sampleMeets [.powerOn, .complete (.begin 60000 0) sampleOutcome]
        (fun _ guard => sampleRefuses guard &&
          (!guard.healthy && guard.running.any (guard.st.floor < ·))) = true := by
      decide +kernel
    obtain ⟨flash, guard, ran, test⟩ := sampleMeets_ran met
    obtain ⟨refused, dirty⟩ := Bool.and_eq_true_iff.mp test
    obtain ⟨unhealthy, below⟩ := Bool.and_eq_true_iff.mp dirty
    have traceless := all _ _ _ _ _ _ _ _ _ _ ran (eq_of_beq refused) rfl
    refine not_leavesNoTrace (eq_of_beq refused) rfl (by simpa using unhealthy) ?_ traceless
    simpa [Option.any_eq_true] using below
  · have met : sampleMeets [.powerOn, .complete (.begin 60000 0) sampleOutcome, sampleRefusal,
        .complete .onHealthy sampleOutcome, .powerOff,
        .powerOn, .complete (.begin 60000 0) sampleOutcome]
        (fun flash guard => decide (flash.device.slot .app1 = .blank) &&
          (guard.kind == .rolledBack && decide (guard.st.KnowsBad (sampleOffer [2, 2]).sha256))) =
        true := by
      decide +kernel
    obtain ⟨flash, guard, ran, test⟩ := sampleMeets_ran met
    obtain ⟨blank, blamed⟩ := Bool.and_eq_true_iff.mp test
    obtain ⟨kind, bad⟩ := Bool.and_eq_true_iff.mp blamed
    exact ⟨flash, guard, ran, of_decide_eq_true blank, eq_of_beq kind, of_decide_eq_true bad⟩

end Presence.Ota
