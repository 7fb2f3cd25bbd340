import Presence.Ota.Version

namespace Presence.Ota

/-! # The update guard

`OtaGuard` of `ota_guard.h`: is a candidate newer, and did the new image work?  A
method returns the calls that took effect on what survives a reset, in order, so
that a power cut leaves a prefix of them behind.  `Outcome` says what the hardware
answers during one method; a refused NVS write keeps the old entry.
-/

abbrev Sha256 := Vector UInt8 32

structure OtaPersistedState where
  magic : UInt32
  floor : UInt64
  hasPending : Bool
  pendingVersion : UInt64
  pendingSha : Sha256
  hasBad : Bool
  badSha : Sha256
deriving DecidableEq, Repr

def kOtaStateMagic : UInt32 := 0x3141544F

/-- What `begin` starts from when NVS holds nothing it can use. -/
def OtaPersistedState.cleared : OtaPersistedState :=
  ⟨kOtaStateMagic, 0, false, 0, .replicate 32 0, false, .replicate 32 0⟩

inductive Call where
  | save (st : OtaPersistedState)
  | markValid
  | rollback
  | restart

structure Outcome where
  saved : Bool
  marked : Bool
  armed : Bool
deriving DecidableEq, Repr

inductive OtaCandidate where
  | accept | runningUnversioned | badVersion | notNewer | belowFloor | knownBad | unconfirmed
deriving DecidableEq, Repr

def otaCandidateName : OtaCandidate → String
  | .accept => "ok"
  | .runningUnversioned => "running build has no MAJOR.MINOR.PATCH version"
  | .badVersion => "version is not MAJOR.MINOR.PATCH"
  | .notNewer => "not newer than the running version"
  | .belowFloor => "not newer than the version floor"
  | .knownBad => "this image was rolled back before"
  | .unconfirmed => "running image is not confirmed yet"

inductive OtaBootKind where
  | normal | awaitingConfirm | rolledBack
deriving DecidableEq, Repr

/-- `running` is empty when the version of this build does not parse. -/
structure OtaGuard where
  timeoutMs : UInt32
  st : OtaPersistedState
  running : Option UInt64
  awaiting : Bool
  deadlineArmed : Bool
  healthy : Bool
  rollbackRequested : Bool
  bootMs : UInt32
  kind : OtaBootKind
deriving DecidableEq, Repr

namespace OtaPersistedState

/-- The blob in NVS, if it can be used. -/
def usable (stored : Option OtaPersistedState) : OtaPersistedState :=
  match stored with
  | none => cleared
  | some st => if st.magic = kOtaStateMagic then st else cleared

/-- The pending image is the one with this version. -/
def pendingIs (st : OtaPersistedState) (running : Option UInt64) : Bool :=
  st.hasPending && running == some st.pendingVersion

def notePendingBad (st : OtaPersistedState) : OtaPersistedState :=
  { st with hasBad := true, badSha := st.pendingSha }

end OtaPersistedState

namespace OtaGuard

def save (outcome : Outcome) (st : OtaPersistedState) : List Call :=
  if outcome.saved then [.save st] else []

def begin (timeoutMs : UInt32) (stored : Option OtaPersistedState) (runningVersion : List UInt8)
    (pendingVerify : Bool) (nowMs : UInt32) (outcome : Outcome) : OtaGuard × List Call :=
  let running := parseOtaVersion runningVersion
  let st := OtaPersistedState.usable stored
  -- the update made bootable last time is not what booted
  let fellBack := st.hasPending && !st.pendingIs running
  let noted := if fellBack then { st.notePendingBad with hasPending := false } else st
  ({ timeoutMs
     st := noted
     running
     awaiting := pendingVerify
     deadlineArmed := pendingVerify && outcome.armed
     healthy := false
     rollbackRequested := false
     bootMs := nowMs
     kind := if pendingVerify then .awaitingConfirm else if fellBack then .rolledBack else .normal },
   if fellBack then save outcome noted else [])

def check (guard : OtaGuard) (version : List UInt8) (sha256 : Sha256) : OtaCandidate :=
  match guard.running with
  | none => .runningUnversioned
  | some running =>
      if guard.awaiting then .unconfirmed
      else
        match parseOtaVersion version with
        | none => .badVersion
        | some candidate =>
            if candidate ≤ running then .notNewer
            else if candidate ≤ guard.st.floor then .belowFloor
            else if guard.st.hasBad ∧ sha256 = guard.st.badSha then .knownBad
            else .accept

def notePending (guard : OtaGuard) (version : List UInt8) (sha256 : Sha256) (outcome : Outcome) :
    OtaGuard × List Call × Bool :=
  match parseOtaVersion version with
  | none => (guard, [], false)
  | some pendingVersion =>
      let st := { guard.st with hasPending := true, pendingVersion, pendingSha := sha256 }
      ({ guard with st }, save outcome st, outcome.saved)

def clearPending (guard : OtaGuard) (outcome : Outcome) : OtaGuard × List Call :=
  let st := { guard.st with hasPending := false }
  ({ guard with st }, save outcome st)

/-- The version this build has just proved raises the floor. -/
def raised (guard : OtaGuard) : OtaPersistedState :=
  match guard.running with
  | none => guard.st
  | some running => if running > guard.st.floor then { guard.st with floor := running } else guard.st

def settled (guard : OtaGuard) : OtaPersistedState :=
  let st := guard.raised
  if st.pendingIs guard.running then { st with hasPending := false } else st

def onHealthy (guard : OtaGuard) (outcome : Outcome) : OtaGuard × List Call :=
  if guard.healthy then (guard, [])
  -- try again on the next heartbeat
  else if guard.awaiting && !outcome.marked then (guard, [])
  else
    let st := guard.settled
    ({ guard with
       st, awaiting := false, healthy := true
       deadlineArmed := if guard.awaiting then false else guard.deadlineArmed },
     (if guard.awaiting then [.markValid] else []) ++
       if st = guard.st then [] else save outcome st)

def tick (guard : OtaGuard) (nowMs : UInt32) (outcome : Outcome) : OtaGuard × List Call :=
  if !guard.awaiting || guard.rollbackRequested then (guard, [])
  else if nowMs - guard.bootMs < guard.timeoutMs then (guard, [])
  else
    let noted := guard.st.pendingIs guard.running
    -- the pending record stays, so that the next boot still sees the rollback
    let st := if noted then guard.st.notePendingBad else guard.st
    ({ guard with st, rollbackRequested := true },
     (if noted then save outcome st else []) ++ [.rollback])

def onConfirmDeadline (guard : OtaGuard) : List Call :=
  if guard.awaiting then [.restart] else []

/-! ## What a method can do

Each method is described once: the fields it leaves, and the calls it makes.
-/

end OtaGuard

/-- The floor and the bad image are the same. -/
structure Keeps (before after : OtaPersistedState) : Prop where
  magic : after.magic = before.magic
  floor : after.floor = before.floor
  hasBad : after.hasBad = before.hasBad
  badSha : after.badSha = before.badSha

structure Kept (before after : OtaGuard) : Prop where
  running : after.running = before.running
  awaiting : after.awaiting = before.awaiting
  keeps : Keeps before.st after.st

theorem Kept.refl (guard : OtaGuard) : Kept guard guard := ⟨rfl, rfl, ⟨rfl, rfl, rfl, rfl⟩⟩

@[simp] theorem OtaPersistedState.usable_magic (stored : Option OtaPersistedState) :
    (usable stored).magic = kOtaStateMagic := by
  simp only [usable]
  split
  next => rfl
  next =>
    split
    next same => exact same
    next => rfl

theorem OtaPersistedState.usable_of_magic {st : OtaPersistedState} (magic : st.magic = kOtaStateMagic) :
    usable (some st) = st := by
  simp [usable, magic]

namespace OtaGuard

variable {guard : OtaGuard} {outcome : Outcome}

/-- At most the given blob is saved. -/
def Saves (st : OtaPersistedState) (calls : List Call) : Prop :=
  calls = [] ∨ calls = [.save st]

theorem saves_save (outcome : Outcome) (st : OtaPersistedState) : Saves st (save outcome st) := by
  simp only [save]
  split
  · exact .inr rfl
  · exact .inl rfl

theorem begin_spec (timeoutMs : UInt32) (stored : Option OtaPersistedState)
    (runningVersion : List UInt8) (pendingVerify : Bool) (nowMs : UInt32) (outcome : Outcome) :
    let done := begin timeoutMs stored runningVersion pendingVerify nowMs outcome
    done.1.running = parseOtaVersion runningVersion ∧ done.1.awaiting = pendingVerify ∧
      done.1.st.magic = kOtaStateMagic ∧
      done.1.st.floor = (OtaPersistedState.usable stored).floor ∧ Saves done.1.st done.2 := by
  refine ⟨rfl, rfl, ?_, ?_, ?_⟩
  · simp only [begin]
    split
    · exact OtaPersistedState.usable_magic stored
    · exact OtaPersistedState.usable_magic stored
  · simp only [begin]
    split <;> rfl
  · simp only [begin]
    split
    · exact saves_save _ _
    · exact .inl rfl

theorem raised_spec (guard : OtaGuard) :
    guard.raised = guard.st ∨
      ∃ running, guard.running = some running ∧ guard.st.floor < running ∧
        guard.raised = { guard.st with floor := running } := by
  simp only [raised]
  split
  next => exact .inl rfl
  next running known =>
    split
    next higher => exact .inr ⟨running, known, higher, rfl⟩
    next => exact .inl rfl

/-- Being healthy may raise the floor to the running version, and touches no bad image. -/
theorem settled_spec (guard : OtaGuard) :
    guard.settled.magic = guard.st.magic ∧ guard.settled.hasBad = guard.st.hasBad ∧
      guard.settled.badSha = guard.st.badSha ∧
      (guard.settled.floor = guard.st.floor ∨
        guard.running = some guard.settled.floor ∧ guard.st.floor < guard.settled.floor) := by
  have kept : guard.settled.magic = guard.raised.magic ∧
      guard.settled.hasBad = guard.raised.hasBad ∧ guard.settled.badSha = guard.raised.badSha ∧
      guard.settled.floor = guard.raised.floor := by
    unfold settled
    dsimp only
    split <;> exact ⟨rfl, rfl, rfl, rfl⟩
  rw [kept.1, kept.2.1, kept.2.2.1, kept.2.2.2]
  rcases raised_spec guard with same | ⟨running, known, higher, raised⟩
  · rw [same]
    exact ⟨rfl, rfl, rfl, .inl rfl⟩
  · rw [raised]
    exact ⟨rfl, rfl, rfl, .inr ⟨known, higher⟩⟩

theorem onHealthy_cases (guard : OtaGuard) (outcome : Outcome) :
    guard.onHealthy outcome = (guard, []) ∨
      ∃ after saves, guard.onHealthy outcome =
          (after, (if guard.awaiting then [.markValid] else []) ++ saves) ∧
        after.running = guard.running ∧ after.awaiting = false ∧ after.st = guard.settled ∧
        Saves guard.settled saves := by
  simp only [onHealthy]
  split
  next => exact .inl rfl
  next =>
    split
    next => exact .inl rfl
    next =>
      refine .inr ⟨_, _, rfl, rfl, rfl, rfl, ?_⟩
      split
      · exact .inl rfl
      · exact saves_save _ _

theorem tick_cases (guard : OtaGuard) (nowMs : UInt32) (outcome : Outcome) :
    guard.tick nowMs outcome = (guard, []) ∨
      guard.awaiting = true ∧
        ∃ after saves, guard.tick nowMs outcome = (after, saves ++ [.rollback]) ∧
          after.running = guard.running ∧ after.awaiting = guard.awaiting ∧
          (after.st = guard.st ∨
            guard.st.pendingIs guard.running = true ∧ after.st = guard.st.notePendingBad) ∧
          Saves after.st saves := by
  simp only [tick]
  split
  next => exact .inl rfl
  next waits =>
    split
    next => exact .inl rfl
    next =>
      have awaiting : guard.awaiting = true := by
        cases known : guard.awaiting with
        | false => simp [known] at waits
        | true => rfl
      refine .inr ⟨awaiting, _, _, rfl, rfl, rfl, ?_, ?_⟩
      · cases noted : guard.st.pendingIs guard.running with
        | false => exact .inl rfl
        | true => exact .inr ⟨rfl, rfl⟩
      · split
        · exact saves_save _ _
        · exact .inl rfl

theorem check_accept {version : List UInt8} {sha256 : Sha256}
    (accepted : guard.check version sha256 = .accept) :
    ∃ running candidate, guard.running = some running ∧ guard.awaiting = false ∧
      parseOtaVersion version = some candidate ∧ running < candidate ∧
      ¬ (guard.st.hasBad = true ∧ sha256 = guard.st.badSha) := by
  simp only [check] at accepted
  split at accepted
  next => cases accepted
  next running known =>
    split at accepted
    next => cases accepted
    next confirmed =>
      split at accepted
      next => cases accepted
      next candidate read =>
        split at accepted
        next => cases accepted
        next newer =>
          split at accepted
          next => cases accepted
          next =>
            split at accepted
            next => cases accepted
            next unknown =>
              exact ⟨running, candidate, known, by simpa using confirmed, read,
                UInt64.not_le.mp newer, unknown⟩

/-! ## Which is newer

The guard compares codes like `fwversion.Newer` does, and codes are ordered like
the versions they stand for.
-/

theorem check_notNewer_iff {guard : OtaGuard} {candidate current : List UInt8} {c r : UInt64}
    (read : parse candidate = some c) (running : parse current = some r)
    (booted : guard.running = parseOtaVersion current) (confirmed : guard.awaiting = false)
    (sha256 : Sha256) : guard.check candidate sha256 = .notNewer ↔ c ≤ r := by
  rw [parseOtaVersion_eq, running] at booted
  simp only [check, booted, confirmed, parseOtaVersion_eq, read, Bool.false_eq_true, if_false]
  split
  next older => simp [older]
  next newer =>
    simp only [newer, iff_false]
    repeat' split
    all_goals simp

end OtaGuard

theorem parse_text (version : Version) :
    ∃ code, parse version.text = some code ∧ code.toNat = version.number := by
  have value : (UInt64.ofNat version.number).toNat = version.number := by
    have bounded := version.number_lt
    rw [UInt64.toNat_ofNat']
    omega
  exact ⟨_, parse_eq_some_iff.mpr ⟨version, rfl, value⟩, value⟩

theorem one_version_grammar :
    (∀ s, otaVersionCode s = (parse s).getD kInvalidOtaVersion ∧ parseOtaVersion s = parse s) ∧
    (∀ s code, parse s = some code ↔
      ∃ version : Version, s = version.text ∧ code.toNat = version.number) ∧
    (∀ first second : Version, first.number < second.number ↔ first.Older second) ∧
    (∀ candidate current : Version,
      newer candidate.text current.text = .ok (decide (current.Older candidate)) ∧
      ∀ (guard : OtaGuard) (sha256 : Sha256), guard.running = parseOtaVersion current.text →
        guard.awaiting = false →
        (guard.check candidate.text sha256 = .notNewer ↔ ¬ current.Older candidate)) ∧
    (∀ s code, parse s = some code → format code = s ∧ formatOtaVersion code = s) ∧
    (∀ code : UInt64, code.toNat < 2 ^ 48 →
      parse (format code) = some code ∧ parseOtaVersion (formatOtaVersion code) = some code) := by
  refine ⟨fun s => ⟨otaVersionCode_eq s, parseOtaVersion_eq s⟩, fun s code => parse_eq_some_iff,
    fun first second => Version.number_lt_iff, ?_, ?_, ?_⟩
  · intro candidate current
    obtain ⟨c, read, value⟩ := parse_text candidate
    obtain ⟨r, running, ran⟩ := parse_text current
    have order : r < c ↔ current.Older candidate := by
      rw [UInt64.lt_iff_toNat_lt, value, ran, Version.number_lt_iff]
    refine ⟨by simp [newer, read, running, order], fun guard sha256 booted confirmed => ?_⟩
    rw [OtaGuard.check_notNewer_iff read running booted confirmed, ← order, UInt64.not_lt]
  · intro s code accepted
    have formatted := format_parse accepted
    exact ⟨formatted, by rw [formatOtaVersion_eq (parse_lt accepted), formatted]⟩
  · intro code bounded
    have parsed := parse_format bounded
    exact ⟨parsed, by rw [formatOtaVersion_eq bounded, parseOtaVersion_eq, parsed]⟩

end Presence.Ota
