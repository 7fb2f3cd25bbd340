import Presence.Ota.TwoSlot

namespace Presence.Ota

open Presence.Data Presence.Firmware

/-! # Two-slot safety

Every operation of a terminal keeps the home slot and the floor sound at each of its
calls, so that a power cut finds the way back open.
-/

/-- No signed image was built as another version than the one it was signed under. -/
def Honest (builtAs : List UInt8 → List UInt8) (release : Release) : Prop :=
  ∀ signature version image, (parse version).isSome = true →
    release.ed.check signature release.publicKey (signedMessage version image) = true →
    builtAs image = version

namespace Terminal

section

variable (builtAs : List UInt8 → List UInt8)

def SafeOn (flash : Flash) (guard : OtaGuard) : Prop :=
  (∃ home current earlier, Serving builtAs flash.floor guard home current earlier flash ∧
    guard.awaiting = false ∧ guard.running = codeOf builtAs current) ∨
  ∃ home current image earlier, Trying builtAs flash.floor guard home current image earlier flash ∧
    guard.awaiting = true ∧ guard.running = codeOf builtAs image

/-- Where the bootloader has just handed over to an image. -/
def Started (flash : Flash) : Prop :=
  Proven builtAs flash.confirmed flash.floor ∧
    ((∃ home current earlier, AtHome builtAs flash home current earlier) ∨
      ∃ home current image earlier, OnTrial builtAs flash home current image earlier ∧
        (flash.device.slot home.other).state = .pendingVerify)

def Safe (terminal : Terminal) : Prop :=
  match terminal.power with
  | .off => Persistent builtAs terminal.flash
  | .started => Started builtAs terminal.flash
  | .on guard => SafeOn builtAs terminal.flash guard

end

variable {builtAs : List UInt8 → List UInt8} {release : Release} {flash : Flash}
  {guard : OtaGuard} {terminal next : Terminal}

theorem safeOn_of_serving {lower : UInt64} {home : SlotId} {current : List UInt8}
    {earlier : List (List UInt8)}
    (serving : Serving builtAs lower guard home current earlier flash)
    (awaiting : guard.awaiting = false) (running : guard.running = codeOf builtAs current) :
    SafeOn builtAs flash guard :=
  .inl ⟨home, current, earlier, { serving with floor := UInt64.le_refl _ }, awaiting, running⟩

theorem safeOn_of_trying {lower : UInt64} {home : SlotId} {current image : List UInt8}
    {earlier : List (List UInt8)}
    (trying : Trying builtAs lower guard home current image earlier flash)
    (awaiting : guard.awaiting = true) (running : guard.running = codeOf builtAs image) :
    SafeOn builtAs flash guard :=
  .inr ⟨home, current, image, earlier, { trying with floor := UInt64.le_refl _ }, awaiting, running⟩

theorem SafeOn.sound (safe : SafeOn builtAs flash guard) : Sound builtAs flash.floor flash := by
  rcases safe with ⟨home, current, earlier, serving, -⟩ | ⟨home, current, image, earlier, trying, -⟩
  · exact serving.sound
  · exact trying.sound

theorem Safe.persistent (safe : terminal.Safe builtAs) : Persistent builtAs terminal.flash := by
  simp only [Safe] at safe
  split at safe
  next => exact safe
  next =>
    obtain ⟨proven, ⟨home, current, earlier, atHome⟩ |
      ⟨home, current, image, earlier, trial, -⟩⟩ := safe
    · exact ⟨home, current, earlier, atHome.toHome, .inl atHome.resting, proven⟩
    · exact ⟨home, current, earlier, trial.toHome, trial.spare, proven⟩
  next => exact safe.sound.persistent

/-- What an operation has to show: every cut in it leaves a sound flash, and so does
its end. -/
structure Performs (builtAs : List UInt8 → List UInt8) (flash : Flash) (after : Option OtaGuard)
    (calls : List FlashCall) : Prop where
  cuts : Throughout Flash.perform (Sound builtAs flash.floor) flash calls
  ends : ∀ guard, after = some guard → SafeOn builtAs (flash.performAll calls) guard

theorem performs_nothing (safe : SafeOn builtAs flash guard) :
    Performs builtAs flash (some guard) [] :=
  ⟨safe.sound, fun _ same => Option.some.inj same ▸ safe⟩

theorem performs_of_serving {home : SlotId} {current : List UInt8} {earlier : List (List UInt8)}
    {calls : List FlashCall}
    (throughout : Throughout Flash.perform
      (Serving builtAs flash.floor guard home current earlier) flash calls)
    (awaiting : guard.awaiting = false) (running : guard.running = codeOf builtAs current) :
    Performs builtAs flash (some guard) calls := by
  refine ⟨throughout.imp fun _ serving => serving.sound, fun _ same => ?_⟩
  cases same
  have final := throughout.take calls.length
  rw [List.take_length] at final
  exact safeOn_of_serving final awaiting running

theorem performs_of_trying {home : SlotId} {current image : List UInt8}
    {earlier : List (List UInt8)} {calls : List FlashCall}
    (throughout : Throughout Flash.perform
      (Trying builtAs flash.floor guard home current image earlier) flash calls)
    (awaiting : guard.awaiting = true) (running : guard.running = codeOf builtAs image) :
    Performs builtAs flash (some guard) calls := by
  refine ⟨throughout.imp fun _ trying => trying.sound, fun _ same => ?_⟩
  cases same
  have final := throughout.take calls.length
  rw [List.take_length] at final
  exact safeOn_of_trying final awaiting running

theorem SafeOn.onHealthy (safe : SafeOn builtAs flash guard) (outcome : Outcome) :
    Performs builtAs flash (some (guard.onHealthy outcome).1)
      ((guard.onHealthy outcome).2.map .guard) := by
  obtain unchanged | ⟨after, saves, done, sameRunning, confirmed, settled, saved⟩ :=
    guard.onHealthy_cases outcome
  · rw [unchanged]
    exact performs_nothing safe
  · rw [done]
    rw [← settled] at saved
    have magic : ∀ {st}, guard.st.magic = st → after.st.magic = st := by
      intro st same
      rw [settled, guard.settled_spec.1, same]
    rcases safe with ⟨home, current, earlier, serving, awaiting, running⟩ |
      ⟨home, current, image, earlier, trying, awaiting, running⟩
    · have member : current ∈ flash.confirmed := by simp [serving.atHome.confirmed]
      have proven := proven_settled serving.informed.proven member running
      have served : Serving builtAs flash.floor after home current earlier flash := by
        refine { serving with informed := ⟨magic serving.informed.magic, ?_, ?_⟩ }
        · rw [settled]
          exact proven
        · rw [settled]
          exact UInt64.le_trans serving.informed.floor (floor_le_settled guard)
      rw [awaiting]
      exact performs_of_serving (served.saves saved) confirmed (sameRunning.trans running)
    · have takesOver := trying.onTrial.markValid
      have confirmedNow : (flash.perform (.guard .markValid)).confirmed = image :: flash.confirmed := by
        rw [takesOver.confirmed, trying.onTrial.confirmed]
      have floor : (flash.perform (.guard .markValid)).floor = flash.floor := rfl
      have proven : Proven builtAs (image :: flash.confirmed) guard.settled.floor :=
        proven_settled (trying.informed.proven.cons image) (by simp) running
      have served : Serving builtAs (flash.perform (.guard .markValid)).floor after home.other image
          (current :: earlier) (flash.perform (.guard .markValid)) := by
        refine ⟨takesOver, ⟨magic trying.informed.magic, ?_, ?_⟩, ?_, UInt64.le_refl _⟩
        · rw [settled, confirmedNow]
          exact proven
        · rw [settled, floor]
          exact UInt64.le_trans trying.informed.floor (floor_le_settled guard)
        · rw [confirmedNow, floor]
          exact trying.proven.cons image
      have later := performs_of_serving (served.saves saved) confirmed (sameRunning.trans running)
      rw [awaiting]
      exact ⟨⟨trying.sound, later.cuts⟩, later.ends⟩

theorem SafeOn.tick (safe : SafeOn builtAs flash guard) (nowMs : UInt32) (outcome : Outcome) :
    Performs builtAs flash (some (guard.tick nowMs outcome).1)
      ((guard.tick nowMs outcome).2.map .guard) := by
  obtain unchanged | ⟨waits, after, saves, done, sameRunning, sameAwaiting, noted, saved⟩ :=
    guard.tick_cases nowMs outcome
  · rw [unchanged]
    exact performs_nothing safe
  · rw [done]
    have same : after.st.magic = guard.st.magic ∧ after.st.floor = guard.st.floor := by
      rcases noted with kept | ⟨-, bad⟩
      · rw [kept]
        exact ⟨rfl, rfl⟩
      · rw [bad]
        exact ⟨rfl, rfl⟩
    rcases safe with ⟨home, current, earlier, serving, awaiting, running⟩ |
      ⟨home, current, image, earlier, trying, awaiting, running⟩
    · rw [awaiting] at waits
      cases waits
    · have tried : Trying builtAs flash.floor after home current image earlier flash := by
        refine { trying with informed := ⟨same.1.trans trying.informed.magic, ?_, ?_⟩ }
        · rw [same.2]
          exact trying.informed.proven
        · rw [same.2]
          exact trying.informed.floor
      have early := tried.saves saved
      have middle := early.take (saves.map FlashCall.guard).length
      rw [List.take_length] at middle
      rw [List.map_append]
      exact performs_of_trying (early.append ⟨middle, middle.rollback⟩) (sameAwaiting.trans awaiting)
        (sameRunning.trans running)

theorem SafeOn.install (honest : Honest builtAs release) (safe : SafeOn builtAs flash guard)
    (offer : Offer) (flashing : Flashing) (outcome : Outcome) :
    let done := applyOta release guard offer flashing outcome
    Performs builtAs flash (if done.2.2 = .applied then none else some done.1) done.2.1 := by
  have spec := applyOta_spec release guard offer flashing outcome
  generalize applyOta release guard offer flashing outcome = done at spec
  obtain ⟨after, calls, result⟩ := done
  obtain ⟨kept, applied⟩ := spec
  dsimp only at kept applied ⊢
  rcases safe with ⟨home, current, earlier, serving, awaiting, running⟩ |
    ⟨home, current, image, earlier, trying, awaiting, running⟩
  · cases applied with
    | refused unapplied =>
        rw [if_neg unapplied]
        exact performs_nothing (safeOn_of_serving (serving.kept kept) (kept.awaiting.trans awaiting)
          (kept.running.trans running))
    | failed accepted unapplied harmless =>
        rw [if_neg unapplied]
        have throughout := (serving.performAll harmless).imp fun _ serving => serving.kept kept
        exact performs_of_serving throughout (kept.awaiting.trans awaiting)
          (kept.running.trans running)
    | applied accepted length verified keeps =>
        rename_i stored st
        obtain ⟨versioned, signed⟩ := verdict_ok length verified
        have built : builtAs stored = offer.version := honest _ _ _ versioned signed
        obtain ⟨code, candidate, known, -, read, newer, -⟩ := OtaGuard.check_accept accepted
        have newer : Newer builtAs stored current :=
          ⟨candidate, code, by rw [codeOf, built, read], by rw [← running, known], newer⟩
        have erased := serving.writeIdle none
        have written := erased.writeIdle (some stored)
        have saved := written.save (keeps.magic.trans serving.informed.magic) keeps.floor
        refine ⟨⟨serving.sound, erased.sound, written.sound, saved.sound, ?_⟩, ?_⟩
        · refine saved.setBootIdle ?_ newer
          simp [Flash.perform, SimDevice.writeIdle, SimDevice.set, SimDevice.idle,
            serving.atHome.running]
        · intro guard impossible
          simp at impossible
  · -- a candidate is offered nothing
    have refused : ∀ {version sha256}, guard.check version sha256 ≠ .accept := by
      intro version sha256 accepted
      obtain ⟨-, -, -, confirmed, -⟩ := OtaGuard.check_accept accepted
      rw [awaiting] at confirmed
      cases confirmed
    cases applied with
    | refused unapplied =>
        rw [if_neg unapplied]
        have tried : Trying builtAs flash.floor after home current image earlier flash := by
          refine { trying with
            informed := ⟨kept.keeps.magic.trans trying.informed.magic, ?_, ?_⟩ }
          · rw [kept.keeps.floor]
            exact trying.informed.proven
          · rw [kept.keeps.floor]
            exact trying.informed.floor
        exact performs_nothing (safeOn_of_trying tried (kept.awaiting.trans awaiting)
          (kept.running.trans running))
    | failed accepted => exact absurd accepted refused
    | applied accepted => exact absurd accepted refused

theorem Started.begin (started : Started builtAs flash) (timeoutMs nowMs : UInt32)
    (outcome : Outcome) :
    let done := OtaGuard.begin timeoutMs flash.nvs ((flash.device.runningSlot.image.map builtAs).getD [])
      flash.device.runningPending nowMs outcome
    Performs builtAs flash (some done.1) (done.2.map .guard) := by
  have spec := OtaGuard.begin_spec timeoutMs flash.nvs
    ((flash.device.runningSlot.image.map builtAs).getD []) flash.device.runningPending nowMs outcome
  generalize OtaGuard.begin timeoutMs flash.nvs _ _ nowMs outcome = done at spec
  obtain ⟨running, awaiting, magic, floor, saved⟩ := spec
  obtain ⟨proven, started⟩ := started
  have informed : Informed builtAs flash done.1 := by
    refine ⟨magic, ?_, ?_⟩
    · rw [floor]
      exact proven
    · rw [floor]
      exact UInt64.le_refl _
  dsimp only
  rcases started with ⟨home, current, earlier, atHome⟩ | ⟨home, current, image, earlier, trial, pending⟩
  · have slot : flash.device.runningSlot = flash.device.slot home := by
      rw [SimDevice.runningSlot, atHome.running]
    rw [slot, atHome.held] at running
    rw [atHome.runsConfirmed.1] at awaiting
    have serving : Serving builtAs flash.floor done.1 home current earlier flash :=
      ⟨atHome, informed, proven, UInt64.le_refl _⟩
    exact performs_of_serving (serving.saves saved) awaiting running
  · have slot : flash.device.runningSlot = flash.device.slot home.other := by
      rw [SimDevice.runningSlot, trial.running]
    have unconfirmed : flash.device.runningPending = true := by
      simp [SimDevice.runningPending, slot, trial.candidate.entry, pending]
    rw [slot, trial.candidate.held] at running
    rw [unconfirmed] at awaiting
    have trying : Trying builtAs flash.floor done.1 home current image earlier flash :=
      ⟨trial, informed, proven, UInt64.le_refl _⟩
    exact performs_of_trying (trying.saves saved) awaiting running

theorem SafeOn.confirmDeadline (safe : SafeOn builtAs flash guard) :
    Performs builtAs flash (if guard.awaiting then none else some guard)
      (guard.onConfirmDeadline.map .guard) := by
  simp only [OtaGuard.onConfirmDeadline]
  cases guard.awaiting with
  | false => exact performs_nothing safe
  | true => exact ⟨⟨safe.sound, safe.sound⟩, fun _ impossible => by cases impossible⟩

theorem Safe.performs (honest : Honest builtAs release) (safe : terminal.Safe builtAs)
    {operation : Operation} {outcome : Outcome} {after : Option OtaGuard} {calls : List FlashCall}
    (performed : terminal.perform builtAs release operation outcome = some (after, calls)) :
    Performs builtAs terminal.flash after calls := by
  obtain ⟨flash, power⟩ := terminal
  cases power with
  | off => cases operation <;> cases performed
  | started =>
      cases operation <;> cases performed
      exact Started.begin safe _ _ outcome
  | on guard =>
      have safe : SafeOn builtAs flash guard := safe
      cases operation with
      | begin => cases performed
      | onHealthy =>
          cases performed
          exact safe.onHealthy outcome
      | tick nowMs =>
          cases performed
          exact safe.tick nowMs outcome
      | confirmDeadline =>
          cases performed
          exact safe.confirmDeadline
      | install offer flashing =>
          cases performed
          exact safe.install honest offer flashing outcome

theorem Persistent.boots (persistent : Persistent builtAs flash) :
    Started builtAs { flash with device := flash.device.bootloader } := by
  obtain ⟨home, current, earlier, stands, spare, proven⟩ := persistent
  refine ⟨proven, ?_⟩
  rcases spare with resting | ⟨image, candidate, fresh | pending⟩
  · rw [bootloader_resting stands resting]
    exact .inl ⟨home, current, earlier, stands.transfer rfl rfl, rfl, resting⟩
  · rw [bootloader_new stands candidate fresh]
    refine .inr ⟨home, current, image, earlier, ⟨stands.transfer rfl (by simp), rfl, ?_, ?_⟩, ?_⟩
    · simpa using ⟨candidate.entry, candidate.held, candidate.newer, candidate.ahead⟩
    · exact .inl (by simp)
    · simp
  · rw [bootloader_pending stands candidate pending]
    refine .inl ⟨home, current, earlier, stands.transfer rfl (by simp), rfl, ?_⟩
    exact .inr (.inl (by simp))

theorem Safe.step (honest : Honest builtAs release) (safe : terminal.Safe builtAs) {event : Event}
    (taken : terminal.step builtAs release event = some next) :
    next.Safe builtAs ∧ terminal.flash.floor ≤ next.flash.floor := by
  cases event with
  | powerOn =>
      obtain ⟨flash, power⟩ := terminal
      cases power <;> cases taken
      exact ⟨Persistent.boots safe, UInt64.le_refl _⟩
  | complete operation outcome =>
      obtain ⟨after, calls, performed, flash, power⟩ := step_complete taken
      obtain ⟨cuts, ends⟩ := safe.performs honest performed
      have final := cuts.take calls.length
      rw [List.take_length] at final
      rw [Terminal.Safe, power, flash]
      refine ⟨?_, final.floor⟩
      cases after with
      | none => exact final.persistent
      | some guard => exact ends guard rfl
  | cut operation outcome performed =>
      obtain ⟨after, calls, performs, rfl⟩ := step_cut taken
      have left := (safe.performs honest performs).cuts.take performed
      exact ⟨left.persistent, left.floor⟩
  | powerOff =>
      cases taken
      exact ⟨safe.persistent, UInt64.le_refl _⟩

theorem safe_fresh (image : List UInt8) : (fresh image).Safe builtAs := by
  refine ⟨.app0, image, [], ⟨rfl, ?_, rfl, .inr ⟨rfl, rfl⟩⟩, .inl (.inl rfl), .inl rfl⟩
  exact List.pairwise_singleton _ _

theorem safe_of_run (honest : Honest builtAs release) {image : List UInt8} {events : List Event}
    (ran : run (Terminal.step builtAs release) (fresh image) events = some terminal) :
    terminal.Safe builtAs :=
  run_invariant (fun _ _ _ safe taken => (safe.step honest taken).1) (safe_fresh image) ran

/-- Each write to the idle slot finds a confirmed image running. -/
def WritesConfirmed (flash : Flash) (calls : List FlashCall) : Prop :=
  ∀ performed call, calls[performed]? = some call → call.writesIdle = true →
    RunsConfirmed (flash.performAll (calls.take performed))

theorem writesConfirmed_guard (calls : List Call) :
    WritesConfirmed flash (calls.map .guard) := by
  intro performed call found writes
  obtain ⟨inner, -, rfl⟩ := List.mem_map.mp (List.mem_of_getElem? found)
  cases writes

theorem SafeOn.writesConfirmed (safe : SafeOn builtAs flash guard) (offer : Offer)
    (flashing : Flashing) (outcome : Outcome) :
    WritesConfirmed flash (applyOta release guard offer flashing outcome).2.1 := by
  obtain ⟨-, applied⟩ := applyOta_spec release guard offer flashing outcome
  generalize (applyOta release guard offer flashing outcome).2 = done at applied
  obtain ⟨calls, result⟩ := done
  dsimp only at applied ⊢
  intro performed call found writes
  -- whoever writes was accepted, and a candidate accepts nothing
  have serves : ∀ {version sha256}, guard.check version sha256 = .accept →
      ∃ home current earlier, Serving builtAs flash.floor guard home current earlier flash := by
    intro version sha256 accepted
    obtain ⟨-, -, -, confirmed, -⟩ := OtaGuard.check_accept accepted
    rcases safe with ⟨home, current, earlier, serving, -⟩ | ⟨-, -, -, -, -, awaiting, -⟩
    · exact ⟨home, current, earlier, serving⟩
    · rw [awaiting] at confirmed
      cases confirmed
  cases applied with
  | refused => cases found
  | failed accepted unapplied harmless =>
      obtain ⟨home, current, earlier, serving⟩ := serves accepted
      exact ((serving.performAll harmless).take performed).atHome.runsConfirmed
  | applied accepted =>
      obtain ⟨home, current, earlier, serving⟩ := serves accepted
      match performed with
      | 0 => exact serving.atHome.runsConfirmed
      | 1 => exact (serving.writeIdle none).atHome.runsConfirmed
      | 2 | 3 =>
          cases found
          cases writes
      | performed + 4 => simp at found

theorem Safe.writesConfirmed (safe : terminal.Safe builtAs) {operation : Operation}
    {outcome : Outcome} {after : Option OtaGuard} {calls : List FlashCall}
    (performed : terminal.perform builtAs release operation outcome = some (after, calls)) :
    WritesConfirmed terminal.flash calls := by
  obtain ⟨flash, power⟩ := terminal
  cases power with
  | off => cases operation <;> cases performed
  | started =>
      cases operation <;> cases performed
      exact writesConfirmed_guard _
  | on guard =>
      have safe : SafeOn builtAs flash guard := safe
      cases operation with
      | install offer flashing =>
          cases performed
          exact safe.writesConfirmed offer flashing outcome
      | _ =>
          cases performed
          try exact writesConfirmed_guard _

end Terminal

open Terminal in
/-- Whatever is done to a terminal that left the line with `original` on it, and
wherever the power is cut. -/
theorem two_slot_safety {builtAs : List UInt8 → List UInt8} {release : Release}
    (honest : Honest builtAs release) {original : List UInt8} {events : List Event}
    {terminal : Terminal}
    (ran : run (Terminal.step builtAs release) (fresh original) events = some terminal) :
    (∃ id, ∃ image ∈ terminal.flash.confirmed, (terminal.flash.device.slot id).image = some image ∧
      FallsBack terminal.flash.device id) ∧
    (∀ operation outcome after calls,
      terminal.perform builtAs release operation outcome = some (after, calls) →
      WritesConfirmed terminal.flash calls) ∧
    (Proven builtAs terminal.flash.confirmed terminal.flash.floor ∧
      ∀ later next, run (Terminal.step builtAs release) terminal later = some next →
        terminal.flash.floor ≤ next.flash.floor) ∧
    terminal.flash.confirmed.Pairwise (Newer builtAs) := by
  have safe := safe_of_run honest ran
  obtain ⟨home, current, earlier, stands, -, proven⟩ := safe.persistent
  refine ⟨safe.persistent.fallsBack, fun _ _ _ _ performed => safe.writesConfirmed performed,
    ⟨proven, fun later next ranLater => ?_⟩, stands.increasing⟩
  exact run_relation (fun first second => first.flash.floor ≤ second.flash.floor)
    (fun _ => UInt64.le_refl _) UInt64.le_trans
    (fun _ _ _ safe taken => safe.step honest taken) safe ranLater

/-! An update that proves itself, and a second one whose power is cut before it
does. -/

theorem honest_sample : Honest sampleBuiltAs sampleRelease := by
  intro signature version image versioned checked
  obtain ⟨signed, member, same⟩ := List.any_eq_true.mp checked
  have hashed : (signature.toList.take 32 ++ sampleRelease.publicKey.toList).length = 64 := by simp
  have message : signedMessage version image = signedMessage (sampleBuiltAs signed) signed := by
    rw [← beq_iff_eq.mp same, List.drop_left' hashed]
  obtain ⟨code, parsed⟩ := Option.isSome_iff_exists.mp versioned
  have known : ∀ signed ∈ sampleImages, (parse (sampleBuiltAs signed)).isSome = true := by
    decide +kernel
  obtain ⟨other, otherParsed⟩ := Option.isSome_iff_exists.mp (known signed member)
  obtain ⟨rfl, rfl⟩ := signedMessage_injective parsed otherParsed message
  rfl

def sampleInterrupted : List Event :=
  sampleUpdate [2, 2] ++ sampleUpdate [3, 3, 3] ++
    [.powerOn, .cut (.begin 60000 0) sampleOutcome 0, .powerOn]

theorem two_slot_safety_sample :
    ∃ terminal, run (Terminal.step sampleBuiltAs sampleRelease) (.fresh [1]) sampleInterrupted =
        some terminal ∧
      (∃ id, ∃ image ∈ terminal.flash.confirmed,
        (terminal.flash.device.slot id).image = some image ∧ FallsBack terminal.flash.device id) ∧
      terminal.flash.confirmed.Pairwise (Newer sampleBuiltAs) := by
  have possible : (run (Terminal.step sampleBuiltAs sampleRelease) (.fresh [1])
      sampleInterrupted).isSome = true := by
    decide +kernel
  obtain ⟨terminal, ran⟩ := Option.isSome_iff_exists.mp possible
  obtain ⟨fallsBack, -, -, increasing⟩ := two_slot_safety honest_sample ran
  exact ⟨terminal, ran, fallsBack, increasing⟩

end Presence.Ota
