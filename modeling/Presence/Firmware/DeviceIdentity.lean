import Presence.Data.Run
import Presence.Firmware.Provision

namespace Presence.Firmware.DeviceIdentity

open Presence.Data

/-! # The identity in NVS

`device_id`, `key_version` and `device_secret` are three entries, written one after
the other by the network task (`provisionDevice`) and, in the bench build, by the
loop task (`benchSecretCommand`).  Each NVS call is one step, and the code runs with
the call before it, up to the next one.  A power cut and the boot after it are one
step: nothing is written between them.

The accepted answers and commands are numbered, and each entry keeps the number it
was written for; the terminal does not know it.
-/

/-- How an NVS call ends.  A write that is reported as failed may have left its value. -/
inductive Outcome where
  | done
  | failed
  | unconfirmed
deriving DecidableEq

namespace Outcome

def ok : Outcome → Bool
  | .done => true
  | _ => false

def applied : Outcome → Bool
  | .failed => false
  | _ => true

/-- The size a `put` returns. -/
def size (outcome : Outcome) (bytes : Nat) : Nat := if outcome.ok then bytes else 0

/-- A `get` that fails returns its default. -/
def get {α : Type} (outcome : Outcome) (stored : Option α) (default : α) : α :=
  if outcome.ok then stored.getD default else default

end Outcome

structure Stamped (α : Type) where
  value : α
  origin : Nat
deriving DecidableEq

structure Nvs where
  deviceId : Option (Stamped (List UInt8))
  keyVersion : Option (Stamped Int)
  deviceSecret : Option (Stamped DeviceSecret)
  /-- `prov_token` holds a usable token. -/
  token : Bool
deriving DecidableEq

def toInt32 (value : Int) : Int := value.bmod (2 ^ 32)

structure Attempt where
  result : ProvisionResult
  origin : Nat
deriving DecidableEq

namespace Nvs

variable (nvs : Nvs) (outcome : Outcome)

def isKey : Bool := outcome.ok && nvs.deviceSecret.isSome

def remove : Nvs := if outcome.applied then { nvs with deviceSecret := none } else nvs

def eraseToken : Nvs := if outcome.applied then { nvs with token := false } else nvs

def putDeviceId (attempt : Attempt) : Nvs :=
  if outcome.applied then
    { nvs with deviceId := some ⟨attempt.result.deviceId, attempt.origin⟩ }
  else nvs

def putKeyVersion (attempt : Attempt) : Nvs :=
  if outcome.applied then
    { nvs with keyVersion := some ⟨toInt32 attempt.result.keyVersion, attempt.origin⟩ }
  else nvs

def putDeviceSecret (attempt : Attempt) : Nvs :=
  if outcome.applied then
    { nvs with deviceSecret := some ⟨attempt.result.secret, attempt.origin⟩ }
  else nvs

/-- `getBytes` fills the buffer and compares. -/
def readsSecret (attempt : Attempt) : Bool :=
  outcome.ok && nvs.deviceSecret.map Stamped.value == some attempt.result.secret

def readsDeviceId (attempt : Attempt) : Bool :=
  outcome.get (nvs.deviceId.map Stamped.value) [] == attempt.result.deviceId

def readsKeyVersion (attempt : Attempt) : Bool :=
  outcome.get (nvs.keyVersion.map Stamped.value) 0 == toInt32 attempt.result.keyVersion

end Nvs

/-- The call `storeDeviceIdentity` makes next. -/
inductive StoreCall where
  | putDeviceId
  | putKeyVersion
  | putDeviceSecret
  | readBack
deriving DecidableEq

/-- `storeDeviceIdentity`, one call: what NVS holds then, and the next call or what is
returned. -/
def storeDeviceIdentity (nvs : Nvs) (attempt : Attempt) (outcome : Outcome) :
    StoreCall → Nvs × (StoreCall ⊕ Bool)
  | .putDeviceId =>
      let size := attempt.result.deviceId.length
      (nvs.putDeviceId outcome attempt,
        if outcome.size size ≠ size then .inr false else .inl .putKeyVersion)
  | .putKeyVersion =>
      (nvs.putKeyVersion outcome attempt,
        if outcome.size 4 = 0 then .inr false else .inl .putDeviceSecret)
  | .putDeviceSecret =>
      (nvs.putDeviceSecret outcome attempt,
        if outcome.size kDeviceSecretBytes ≠ kDeviceSecretBytes then .inr false
        else .inl .readBack)
  | .readBack => (nvs, .inr (nvs.readsSecret outcome attempt))

inductive NetTask where
  | idle
  | post
  | store (attempt : Attempt) (call : StoreCall)
  | eraseToken (provisioned : Bool)
deriving DecidableEq

inductive LoopTask where
  | idle
  | isKey (attempt : Attempt)
  | removeOld (attempt : Attempt)
  | store (attempt : Attempt) (call : StoreCall)
  | readDeviceId (attempt : Attempt)
  | readKeyVersion (attempt : Attempt)
  | readSecret (attempt : Attempt)
  | removeNew
  | restart
deriving DecidableEq

/-- What `provisionDevice` does with what `storeDeviceIdentity` returned. -/
def NetTask.afterStore (attempt : Attempt) : StoreCall ⊕ Bool → NetTask
  | .inl call => .store attempt call
  | .inr true => .eraseToken true
  | .inr false => .idle

def LoopTask.afterStore (attempt : Attempt) : StoreCall ⊕ Bool → LoopTask
  | .inl call => .store attempt call
  | .inr true => .readDeviceId attempt
  | .inr false => .removeNew

structure Terminal where
  nvs : Nvs
  provisioned : Bool
  net : NetTask
  loop : LoopTask
  /-- The accepted answers and bench commands, in order. -/
  accepted : List ProvisionResult

inductive Event where
  | boot (isKey eraseToken : Outcome)
  /-- The setup page saves a token, if it shows the field. -/
  | enterToken (isKey save : Outcome)
  /-- A round of the network task, with the load of the token. -/
  | provision (load : Outcome)
  | answer (httpStatus : Int) (body : List UInt8)
  | net (outcome : Outcome)
  | bench (line : List UInt8)
  | loop (outcome : Outcome)

namespace Terminal

def attempt (terminal : Terminal) (result : ProvisionResult) : Attempt :=
  ⟨result, terminal.accepted.length⟩

def accept (terminal : Terminal) (result : ProvisionResult) : Terminal :=
  { terminal with accepted := terminal.accepted ++ [result] }

/-- `setup`: the secret in NVS is the boot decision, and makes a token useless. -/
def boot (terminal : Terminal) (isKey eraseToken : Outcome) : Terminal :=
  let found := terminal.nvs.isKey isKey
  { terminal with
    nvs := if found then terminal.nvs.eraseToken eraseToken else terminal.nvs
    provisioned := found
    net := .idle
    loop := .idle }

def answered (terminal : Terminal) (httpStatus : Int) (body : List UInt8) : Terminal :=
  match classifyProvisionStatus httpStatus with
  | .refused => { terminal with net := .eraseToken false }
  | .retry => { terminal with net := .idle }
  | .ok =>
      match parseProvisionResponse body with
      | none => { terminal with net := .idle }
      | some result =>
          { terminal.accept result with net := .store (terminal.attempt result) .putDeviceId }

def netStep (terminal : Terminal) (outcome : Outcome) : Option Terminal :=
  match terminal.net with
  | .idle | .post => none
  | .store attempt call =>
      let (nvs, after) := storeDeviceIdentity terminal.nvs attempt outcome call
      some { terminal with nvs, net := .afterStore attempt after }
  | .eraseToken provisioned =>
      some { terminal with
        nvs := terminal.nvs.eraseToken outcome
        provisioned := terminal.provisioned || provisioned
        net := .idle }

def loopStep (terminal : Terminal) (outcome : Outcome) : Option Terminal :=
  match terminal.loop with
  | .idle | .restart => none
  | .isKey attempt =>
      some { terminal with
        loop := if terminal.nvs.isKey outcome then .removeOld attempt
          else .store attempt .putDeviceId }
  | .removeOld attempt =>
      some { terminal with
        nvs := terminal.nvs.remove outcome
        loop := if outcome.ok then .store attempt .putDeviceId else .idle }
  | .store attempt call =>
      let (nvs, after) := storeDeviceIdentity terminal.nvs attempt outcome call
      some { terminal with nvs, loop := .afterStore attempt after }
  | .readDeviceId attempt =>
      some { terminal with
        loop := if terminal.nvs.readsDeviceId outcome attempt then .readKeyVersion attempt
          else .removeNew }
  | .readKeyVersion attempt =>
      some { terminal with
        loop := if terminal.nvs.readsKeyVersion outcome attempt then .readSecret attempt
          else .removeNew }
  | .readSecret attempt =>
      some { terminal with
        loop := if terminal.nvs.readsSecret outcome attempt then .restart else .removeNew }
  | .removeNew =>
      -- nobody looks at whether this one succeeds
      some { terminal with nvs := terminal.nvs.remove outcome, loop := .idle }

def step (terminal : Terminal) : Event → Option Terminal
  | .boot isKey eraseToken => some (terminal.boot isKey eraseToken)
  | .enterToken isKey save =>
      if terminal.net = .idle then
        if terminal.nvs.isKey isKey then some terminal
        else some { terminal with
          nvs := { terminal.nvs with token := terminal.nvs.token || save.applied } }
      else none
  | .provision load =>
      if terminal.net = .idle ∧ terminal.provisioned = false then
        some { terminal with net := if load.ok && terminal.nvs.token then .post else .idle }
      else none
  | .answer httpStatus body =>
      match terminal.net with
      | .post => some (terminal.answered httpStatus body)
      | _ => none
  | .net outcome => terminal.netStep outcome
  | .bench line =>
      if terminal.loop = .idle then
        match parseBenchSecretCommand line with
        | .ok result =>
            some { terminal.accept result with loop := .isKey (terminal.attempt result) }
        | _ => some terminal
      else none
  | .loop outcome => terminal.loopStep outcome

/-- A terminal that comes from the factory. -/
def fresh : Terminal := ⟨⟨none, none, none, false⟩, false, .idle, .idle, []⟩

end Terminal

/-! ## One answer, three entries -/

/-- Where there is a `device_secret`, the three entries are those of one accepted answer
or bench command. -/
def Nvs.Whole (nvs : Nvs) (accepted : List ProvisionResult) : Prop :=
  ∀ secret, nvs.deviceSecret = some secret →
    ∃ result, accepted[secret.origin]? = some result ∧ secret.value = result.secret ∧
      nvs.deviceId = some ⟨result.deviceId, secret.origin⟩ ∧
      nvs.keyVersion = some ⟨result.keyVersion, secret.origin⟩

def Terminal.Whole (terminal : Terminal) : Prop := terminal.nvs.Whole terminal.accepted

/-- Between the first entry and the last. -/
def StoreCall.midway : StoreCall → Bool
  | .putKeyVersion | .putDeviceSecret => true
  | _ => false

/-- What a task has in hand. -/
inductive Work where
  | nothing
  | holds (attempt : Attempt)
  | stores (attempt : Attempt) (call : StoreCall)

def NetTask.work : NetTask → Work
  | .store attempt call => .stores attempt call
  | _ => .nothing

def LoopTask.work : LoopTask → Work
  | .isKey attempt | .removeOld attempt => .holds attempt
  | .store attempt call => .stores attempt call
  | _ => .nothing

namespace Work

def afterStore (attempt : Attempt) : StoreCall ⊕ Bool → Work
  | .inl call => .stores attempt call
  | .inr _ => .nothing

def midway : Work → Bool
  | .stores _ call => call.midway
  | _ => false

/-- The next call stores the `device_id`. -/
def opening : Work → Bool
  | .stores _ .putDeviceId => true
  | _ => false

/-- If the call stores a `device_id`, there is no `device_secret` beside it and the other
task is not between its own two. -/
def Clear (work other : Work) (nvs : Nvs) (outcome : Outcome) : Prop :=
  work.opening = true → outcome.applied = true →
    nvs.deviceSecret = none ∧ other.midway = false

instance (work other : Work) (nvs : Nvs) (outcome : Outcome) :
    Decidable (work.Clear other nvs outcome) :=
  inferInstanceAs (Decidable (_ → _ → _ ∧ _))

end Work

def Terminal.Clear (terminal : Terminal) : Event → Prop
  | .net outcome => terminal.net.work.Clear terminal.loop.work terminal.nvs outcome
  | .loop outcome => terminal.loop.work.Clear terminal.net.work terminal.nvs outcome
  | _ => True

instance (terminal : Terminal) : (event : Event) → Decidable (terminal.Clear event)
  | .net outcome =>
      inferInstanceAs (Decidable (terminal.net.work.Clear terminal.loop.work terminal.nvs outcome))
  | .loop outcome =>
      inferInstanceAs (Decidable (terminal.loop.work.Clear terminal.net.work terminal.nvs outcome))
  | .boot .. | .enterToken .. | .provision _ | .answer .. | .bench _ => .isTrue trivial

/-! ## What stands in NVS while an attempt is on its way -/

def Nvs.InPlace (nvs : Nvs) (attempt : Attempt) : StoreCall → Prop
  | .putKeyVersion =>
      nvs.deviceSecret = none ∧
        nvs.deviceId = some ⟨attempt.result.deviceId, attempt.origin⟩
  | .putDeviceSecret =>
      nvs.deviceSecret = none ∧
        nvs.deviceId = some ⟨attempt.result.deviceId, attempt.origin⟩ ∧
        nvs.keyVersion = some ⟨attempt.result.keyVersion, attempt.origin⟩
  | _ => True

structure Attempt.Known (attempt : Attempt) (accepted : List ProvisionResult) : Prop where
  listed : accepted[attempt.origin]? = some attempt.result
  wellFormed : attempt.result.WellFormed

def Work.Fine (nvs : Nvs) (accepted : List ProvisionResult) : Work → Prop
  | .nothing => True
  | .holds attempt => attempt.Known accepted
  | .stores attempt call => attempt.Known accepted ∧ nvs.InPlace attempt call

structure Terminal.Sound (terminal : Terminal) : Prop where
  whole : terminal.Whole
  net : terminal.net.work.Fine terminal.nvs terminal.accepted
  loop : terminal.loop.work.Fine terminal.nvs terminal.accepted
  apart : terminal.net.work.midway = true → terminal.loop.work.midway = false

variable {nvs other : Nvs} {accepted : List ProvisionResult} {attempt : Attempt}
  {call : StoreCall} {outcome : Outcome} {work : Work} {terminal next : Terminal}

theorem Nvs.whole_of_absent (absent : nvs.deviceSecret = none) : nvs.Whole accepted := by
  intro secret present
  rw [absent] at present
  cases present

theorem Nvs.not_whole_of_differs {deviceId : Stamped (List UInt8)} {secret : Stamped DeviceSecret}
    (stored : nvs.deviceId = some deviceId) (present : nvs.deviceSecret = some secret)
    (differs : deviceId.origin ≠ secret.origin) : ¬ nvs.Whole accepted := by
  intro whole
  obtain ⟨result, -, -, ids, -⟩ := whole secret present
  rw [stored, Option.some.injEq] at ids
  exact differs (congrArg Stamped.origin ids)

/-- The token is of no concern, nor is an answer accepted later. -/
theorem Nvs.Whole.of_same {later : List ProvisionResult} (whole : nvs.Whole accepted)
    (grown : accepted <+: later) (secret : other.deviceSecret = nvs.deviceSecret)
    (deviceId : other.deviceId = nvs.deviceId) (keyVersion : other.keyVersion = nvs.keyVersion) :
    other.Whole later := by
  intro stored present
  rw [secret] at present
  obtain ⟨result, listed, value, ids, versions⟩ := whole stored present
  obtain ⟨rest, rfl⟩ := grown
  have known := (List.getElem?_eq_some_iff.mp listed).1
  exact ⟨result, by rw [List.getElem?_append_left known, listed], value, deviceId.trans ids,
    keyVersion.trans versions⟩

/-! ## One call of `storeDeviceIdentity` -/

theorem Outcome.ok_applied (ok : outcome.ok = true) : outcome.applied = true := by
  cases outcome with
  | done => rfl
  | failed => cases ok
  | unconfirmed => rfl

theorem Outcome.size_of_failed (failed : outcome.ok = false) (bytes : Nat) :
    outcome.size bytes = 0 := by
  simp [size, failed]

theorem toInt32_of_wellFormed {result : ProvisionResult} (wellFormed : result.WellFormed) :
    toInt32 result.keyVersion = result.keyVersion := by
  have lower := wellFormed.positive
  have upper := wellFormed.bounded
  simp only [int32Max] at upper
  exact Int.bmod_eq_of_le (by omega) (by omega)

/-- A call that opens nothing and is not midway leaves NVS as it is, and is the last. -/
theorem storeDeviceIdentity_still (known : attempt.Known accepted) (resting : call.midway = false)
    (unopened : call = .putDeviceId → outcome.applied = false) :
    ∃ returned, storeDeviceIdentity nvs attempt outcome call = (nvs, .inr returned) := by
  cases call with
  | putDeviceId =>
      have unapplied := unopened rfl
      have failed : outcome.ok = false :=
        Bool.eq_false_iff.mpr fun ok => by simp [Outcome.ok_applied ok] at unapplied
      have long := known.wellFormed.deviceId
      refine ⟨false, ?_⟩
      simp [storeDeviceIdentity, Nvs.putDeviceId, unapplied, Outcome.size_of_failed failed, long]
  | putKeyVersion => cases resting
  | putDeviceSecret => cases resting
  | readBack => exact ⟨_, rfl⟩

/-- The secret comes last: until then there is none, and with it all three agree. -/
theorem storeDeviceIdentity_whole (whole : nvs.Whole accepted) (known : attempt.Known accepted)
    (inPlace : nvs.InPlace attempt call)
    (clear : call = .putDeviceId → outcome.applied = true → nvs.deviceSecret = none) :
    (storeDeviceIdentity nvs attempt outcome call).1.Whole accepted := by
  cases applied : outcome.applied with
  | false =>
      have same : (storeDeviceIdentity nvs attempt outcome call).1 = nvs := by
        cases call <;>
          simp [storeDeviceIdentity, Nvs.putDeviceId, Nvs.putKeyVersion, Nvs.putDeviceSecret,
            applied]
      rwa [same]
  | true =>
      cases call with
      | putDeviceId =>
          apply Nvs.whole_of_absent
          simpa [storeDeviceIdentity, Nvs.putDeviceId, applied] using clear rfl applied
      | putKeyVersion =>
          apply Nvs.whole_of_absent
          simpa [storeDeviceIdentity, Nvs.putKeyVersion, applied] using inPlace.1
      | putDeviceSecret =>
          obtain ⟨-, deviceId, keyVersion⟩ := inPlace
          intro secret present
          simp only [storeDeviceIdentity, Nvs.putDeviceSecret, applied, if_true,
            Option.some.injEq] at present ⊢
          subst present
          exact ⟨attempt.result, known.listed, rfl, deviceId, keyVersion⟩
      | readBack => exact whole

theorem storeDeviceIdentity_inPlace {later : StoreCall} (known : attempt.Known accepted)
    (inPlace : nvs.InPlace attempt call)
    (clear : call = .putDeviceId → outcome.applied = true → nvs.deviceSecret = none)
    (goesOn : (storeDeviceIdentity nvs attempt outcome call).2 = .inl later) :
    (storeDeviceIdentity nvs attempt outcome call).1.InPlace attempt later := by
  have ok : outcome.ok = true := by
    by_contra failed
    have none := Outcome.size_of_failed (Bool.eq_false_iff.mpr failed)
    have long := known.wellFormed.deviceId
    cases call <;> simp [storeDeviceIdentity, none, long, kDeviceSecretBytes] at goesOn
  have applied := Outcome.ok_applied ok
  cases call with
  | putDeviceId =>
      simp only [storeDeviceIdentity, Outcome.size, ok, if_true, ne_eq, not_true_eq_false,
        if_false, Sum.inl.injEq] at goesOn
      subst goesOn
      exact ⟨by simpa [storeDeviceIdentity, Nvs.putDeviceId, applied] using clear rfl applied,
        by simp [storeDeviceIdentity, Nvs.putDeviceId, applied]⟩
  | putKeyVersion =>
      obtain ⟨absent, deviceId⟩ := inPlace
      simp [storeDeviceIdentity, Outcome.size, ok] at goesOn
      subst goesOn
      simp [Nvs.InPlace, storeDeviceIdentity, Nvs.putKeyVersion, applied, absent, deviceId,
        toInt32_of_wellFormed known.wellFormed]
  | putDeviceSecret =>
      simp [storeDeviceIdentity, Outcome.size, ok] at goesOn
      subst goesOn
      trivial
  | readBack => cases goesOn

/-! ## What one step can do -/

/-- A task that stores nothing gives up what it has in hand, keeps it, or turns to
storing it. -/
inductive Work.Goes : Work → Work → Prop
  | gone (work : Work) : Goes work .nothing
  | kept (attempt : Attempt) : Goes (.holds attempt) (.holds attempt)
  | opens (attempt : Attempt) : Goes (.holds attempt) (.stores attempt .putDeviceId)

namespace Terminal

inductive Stepped (terminal : Terminal) : Event → Terminal → Prop
  | booted (isKey eraseToken : Outcome) :
      Stepped terminal (.boot isKey eraseToken) (terminal.boot isKey eraseToken)
  | entered (isKey save : Outcome) (token : Bool) :
      Stepped terminal (.enterToken isKey save)
        { terminal with nvs := { terminal.nvs with token } }
  | asked {load : Outcome} (net : NetTask) (quiet : net.work = .nothing) :
      Stepped terminal (.provision load) { terminal with net }
  | turnedDown {httpStatus : Int} {body : List UInt8} (net : NetTask)
      (quiet : net.work = .nothing) :
      Stepped terminal (.answer httpStatus body) { terminal with net }
  | answered {httpStatus : Int} {body : List UInt8} (result : ProvisionResult)
      (wellFormed : result.WellFormed) :
      Stepped terminal (.answer httpStatus body)
        { terminal.accept result with net := .store (terminal.attempt result) .putDeviceId }
  | netStored {outcome : Outcome} (attempt : Attempt) (call : StoreCall)
      (net : terminal.net = .store attempt call) :
      Stepped terminal (.net outcome)
        { terminal with
          nvs := (storeDeviceIdentity terminal.nvs attempt outcome call).1
          net := .afterStore attempt (storeDeviceIdentity terminal.nvs attempt outcome call).2 }
  | tokenErased (outcome : Outcome) (provisioned : Bool) :
      Stepped terminal (.net outcome)
        { terminal with nvs := terminal.nvs.eraseToken outcome, provisioned, net := .idle }
  | notCommanded (line : List UInt8) : Stepped terminal (.bench line) terminal
  | commanded {line : List UInt8} (result : ProvisionResult) (wellFormed : result.WellFormed) :
      Stepped terminal (.bench line)
        { terminal.accept result with loop := .isKey (terminal.attempt result) }
  | loopStored {outcome : Outcome} (attempt : Attempt) (call : StoreCall)
      (loop : terminal.loop = .store attempt call) :
      Stepped terminal (.loop outcome)
        { terminal with
          nvs := (storeDeviceIdentity terminal.nvs attempt outcome call).1
          loop := .afterStore attempt (storeDeviceIdentity terminal.nvs attempt outcome call).2 }
  | loopWent {outcome : Outcome} (loop : LoopTask) (busy : terminal.loop ≠ .idle)
      (goes : terminal.loop.work.Goes loop.work) :
      Stepped terminal (.loop outcome) { terminal with loop }
  | loopRemoved {outcome : Outcome} (loop : LoopTask) (busy : terminal.loop ≠ .idle)
      (goes : terminal.loop.work.Goes loop.work) :
      Stepped terminal (.loop outcome)
        { terminal with nvs := terminal.nvs.remove outcome, loop }

theorem stepped_of_netStep (stepped : terminal.netStep outcome = some next) :
    terminal.Stepped (.net outcome) next := by
  cases net : terminal.net with
  | idle => simp [netStep, net] at stepped
  | post => simp [netStep, net] at stepped
  | store attempt call =>
      simp only [netStep, net, Option.some.injEq] at stepped
      subst stepped
      exact .netStored attempt call net
  | eraseToken provisioned =>
      simp only [netStep, net, Option.some.injEq] at stepped
      subst stepped
      exact .tokenErased ..

theorem stepped_of_loopStep (stepped : terminal.loopStep outcome = some next) :
    terminal.Stepped (.loop outcome) next := by
  have busy : terminal.loop ≠ .idle := by
    intro idle
    simp [loopStep, idle] at stepped
  cases loop : terminal.loop with
  | idle => exact absurd loop busy
  | restart => simp [loopStep, loop] at stepped
  | isKey attempt =>
      simp only [loopStep, loop, Option.some.injEq] at stepped
      subst stepped
      refine .loopWent _ busy ?_
      rw [loop]
      split
      · exact .kept attempt
      · exact .opens attempt
  | removeOld attempt =>
      simp only [loopStep, loop, Option.some.injEq] at stepped
      subst stepped
      refine .loopRemoved _ busy ?_
      rw [loop]
      split
      · exact .opens attempt
      · exact .gone _
  | store attempt call =>
      simp only [loopStep, loop, Option.some.injEq] at stepped
      subst stepped
      exact .loopStored attempt call loop
  | readDeviceId attempt =>
      simp only [loopStep, loop, Option.some.injEq] at stepped
      subst stepped
      refine .loopWent _ busy ?_
      split <;> exact .gone _
  | readKeyVersion attempt =>
      simp only [loopStep, loop, Option.some.injEq] at stepped
      subst stepped
      refine .loopWent _ busy ?_
      split <;> exact .gone _
  | readSecret attempt =>
      simp only [loopStep, loop, Option.some.injEq] at stepped
      subst stepped
      refine .loopWent _ busy ?_
      split <;> exact .gone _
  | removeNew =>
      simp only [loopStep, loop, Option.some.injEq] at stepped
      subst stepped
      exact .loopRemoved _ busy (.gone _)

theorem stepped_of_answered (httpStatus : Int) (body : List UInt8) :
    terminal.Stepped (.answer httpStatus body) (terminal.answered httpStatus body) := by
  simp only [answered]
  split
  case h_1 => exact .turnedDown _ rfl
  case h_2 => exact .turnedDown _ rfl
  case h_3 =>
    split
    case h_1 => exact .turnedDown _ rfl
    case h_2 result parsed => exact .answered result (parseProvisionResponse_wellFormed parsed)

theorem stepped_of_step {event : Event} (stepped : terminal.step event = some next) :
    terminal.Stepped event next := by
  cases event with
  | boot isKey eraseToken =>
      cases stepped
      exact .booted isKey eraseToken
  | enterToken isKey save =>
      simp only [step] at stepped
      split at stepped
      case isFalse => cases stepped
      case isTrue =>
        split at stepped <;> cases stepped <;> exact .entered ..
  | provision load =>
      simp only [step] at stepped
      split at stepped
      case isFalse => cases stepped
      case isTrue =>
        cases stepped
        refine .asked _ ?_
        split <;> rfl
  | answer httpStatus body =>
      simp only [step] at stepped
      split at stepped
      case h_1 =>
        cases stepped
        exact stepped_of_answered httpStatus body
      case h_2 => cases stepped
  | net outcome => exact stepped_of_netStep stepped
  | bench line =>
      simp only [step] at stepped
      split at stepped
      case isFalse => cases stepped
      case isTrue =>
        split at stepped
        case h_1 result parsed =>
          cases stepped
          exact .commanded result (parseBenchSecretCommand_wellFormed parsed)
        case h_2 =>
          cases stepped
          exact .notCommanded line
  | loop outcome => exact stepped_of_loopStep stepped

end Terminal

/-! ## One step -/

theorem Attempt.Known.grown {later : List ProvisionResult} (known : attempt.Known accepted)
    (grown : accepted <+: later) : attempt.Known later := by
  obtain ⟨rest, rfl⟩ := grown
  have within := (List.getElem?_eq_some_iff.mp known.listed).1
  exact ⟨by rw [List.getElem?_append_left within, known.listed], known.wellFormed⟩

theorem Nvs.InPlace.of_same (inPlace : nvs.InPlace attempt call)
    (secret : nvs.deviceSecret = none → other.deviceSecret = none)
    (deviceId : other.deviceId = nvs.deviceId) (keyVersion : other.keyVersion = nvs.keyVersion) :
    other.InPlace attempt call := by
  cases call with
  | putDeviceId => trivial
  | putKeyVersion => exact ⟨secret inPlace.1, deviceId.trans inPlace.2⟩
  | putDeviceSecret =>
      exact ⟨secret inPlace.1, deviceId.trans inPlace.2.1, keyVersion.trans inPlace.2.2⟩
  | readBack => trivial

theorem Work.Fine.of_same {later : List ProvisionResult} (fine : work.Fine nvs accepted)
    (grown : accepted <+: later) (secret : nvs.deviceSecret = none → other.deviceSecret = none)
    (deviceId : other.deviceId = nvs.deviceId) (keyVersion : other.keyVersion = nvs.keyVersion) :
    work.Fine other later := by
  cases work with
  | nothing => trivial
  | holds attempt => exact Attempt.Known.grown fine grown
  | stores attempt call => exact ⟨fine.1.grown grown, fine.2.of_same secret deviceId keyVersion⟩

/-- Who is not midway does not mind what happens to the entries. -/
theorem Work.Fine.of_resting (fine : work.Fine nvs accepted) (resting : work.midway = false) :
    work.Fine other accepted := by
  cases work with
  | nothing => trivial
  | holds attempt => exact fine
  | stores attempt call =>
      refine ⟨fine.1, ?_⟩
      cases call with
      | putDeviceId => trivial
      | putKeyVersion => cases resting
      | putDeviceSecret => cases resting
      | readBack => trivial

/-- What a call of one task leaves to it and to the other. -/
structure Called (accepted : List ProvisionResult) (attempt : Attempt) (beside : Work)
    (result : Nvs × (StoreCall ⊕ Bool)) : Prop where
  whole : result.1.Whole accepted
  fine : (Work.afterStore attempt result.2).Fine result.1 accepted
  besideFine : beside.Fine result.1 accepted
  apart : (Work.afterStore attempt result.2).midway = true → beside.midway = false

theorem storeDeviceIdentity_called {beside : Work} (whole : nvs.Whole accepted)
    (fine : (Work.stores attempt call).Fine nvs accepted) (besideFine : beside.Fine nvs accepted)
    (apart : call.midway = true → beside.midway = false)
    (clear : (Work.stores attempt call).Clear beside nvs outcome) :
    Called accepted attempt beside (storeDeviceIdentity nvs attempt outcome call) := by
  obtain ⟨known, inPlace⟩ := fine
  have absent : call = .putDeviceId → outcome.applied = true → nvs.deviceSecret = none := by
    rintro rfl applied
    exact (clear rfl applied).1
  have stays := storeDeviceIdentity_whole whole known inPlace absent
  have continues : (Work.afterStore attempt (storeDeviceIdentity nvs attempt outcome call).2).Fine
      (storeDeviceIdentity nvs attempt outcome call).1 accepted := by
    cases after : (storeDeviceIdentity nvs attempt outcome call).2 with
    | inl later => exact ⟨known, storeDeviceIdentity_inPlace known inPlace absent after⟩
    | inr returned => trivial
  cases busy : beside.midway with
  | false => exact ⟨stays, continues, besideFine.of_resting busy, fun _ => busy⟩
  | true =>
      -- the other task is midway, so this one neither is nor becomes so
      have resting : call.midway = false :=
        Bool.eq_false_iff.mpr fun midway => by simp [apart midway] at busy
      have unopened : call = .putDeviceId → outcome.applied = false := by
        rintro rfl
        exact Bool.eq_false_iff.mpr fun applied => by simp [(clear rfl applied).2] at busy
      obtain ⟨returned, still⟩ := storeDeviceIdentity_still known resting unopened
      rw [still] at stays continues ⊢
      exact ⟨stays, continues, besideFine, fun midway => nomatch midway⟩

/-- A task that goes to, or stays at, a place where NVS does not matter to it. -/
structure Work.Rests (work : Work) (accepted : List ProvisionResult) : Prop where
  resting : work.midway = false
  fine : ∀ nvs, work.Fine nvs accepted

theorem Work.rests_nothing : Work.nothing.Rests accepted := ⟨rfl, fun _ => trivial⟩

theorem Work.rests_holds (known : attempt.Known accepted) : (Work.holds attempt).Rests accepted :=
  ⟨rfl, fun _ => known⟩

theorem Work.rests_opening (known : attempt.Known accepted) :
    (Work.stores attempt .putDeviceId).Rests accepted :=
  ⟨rfl, fun _ => ⟨known, trivial⟩⟩

theorem Work.Goes.rests {later : Work} (goes : work.Goes later) (fine : work.Fine nvs accepted) :
    later.Rests accepted := by
  cases goes with
  | gone => exact rests_nothing
  | kept attempt => exact rests_holds fine
  | opens attempt => exact rests_opening fine

theorem NetTask.afterStore_work (attempt : Attempt) (after : StoreCall ⊕ Bool) :
    (NetTask.afterStore attempt after).work = .afterStore attempt after := by
  rcases after with call | returned
  · rfl
  · cases returned <;> rfl

theorem LoopTask.afterStore_work (attempt : Attempt) (after : StoreCall ⊕ Bool) :
    (LoopTask.afterStore attempt after).work = .afterStore attempt after := by
  rcases after with call | returned
  · rfl
  · cases returned <;> rfl

theorem Terminal.attempt_known (terminal : Terminal) {result : ProvisionResult}
    (wellFormed : result.WellFormed) :
    (terminal.attempt result).Known (terminal.accept result).accepted :=
  ⟨by simp [attempt, accept], wellFormed⟩

namespace Terminal

/-- A step that stores no entry: each task stays where it is or comes to rest. -/
theorem Sound.of_quiet (sound : terminal.Sound) (whole : next.Whole)
    (grown : terminal.accepted <+: next.accepted)
    (secret : terminal.nvs.deviceSecret = none → next.nvs.deviceSecret = none)
    (deviceId : next.nvs.deviceId = terminal.nvs.deviceId)
    (keyVersion : next.nvs.keyVersion = terminal.nvs.keyVersion)
    (net : next.net = terminal.net ∨ next.net.work.Rests next.accepted)
    (loop : next.loop = terminal.loop ∨ next.loop.work.Rests next.accepted) : next.Sound where
  whole := whole
  net := by
    rcases net with same | rests
    · rw [same]
      exact sound.net.of_same grown secret deviceId keyVersion
    · exact rests.fine _
  loop := by
    rcases loop with same | rests
    · rw [same]
      exact sound.loop.of_same grown secret deviceId keyVersion
    · exact rests.fine _
  apart := by
    intro midway
    rcases loop with sameLoop | rests
    · rcases net with same | netRests
      · rw [sameLoop]
        rw [same] at midway
        exact sound.apart midway
      · rw [netRests.resting] at midway
        cases midway
    · exact rests.resting

/-- Neither does one that keeps the entries. -/
theorem Sound.of_kept (sound : terminal.Sound) (grown : terminal.accepted <+: next.accepted)
    (secret : next.nvs.deviceSecret = terminal.nvs.deviceSecret)
    (deviceId : next.nvs.deviceId = terminal.nvs.deviceId)
    (keyVersion : next.nvs.keyVersion = terminal.nvs.keyVersion)
    (net : next.net = terminal.net ∨ next.net.work.Rests next.accepted)
    (loop : next.loop = terminal.loop ∨ next.loop.work.Rests next.accepted) : next.Sound :=
  sound.of_quiet (sound.whole.of_same grown secret deviceId keyVersion) grown
    (fun absent => secret.trans absent) deviceId keyVersion net loop

theorem Sound.removed (sound : terminal.Sound) {loop : LoopTask}
    (rests : loop.work.Rests terminal.accepted) :
    ({ terminal with nvs := terminal.nvs.remove outcome, loop } : Terminal).Sound := by
  cases applied : outcome.applied with
  | false =>
      have same : terminal.nvs.remove outcome = terminal.nvs := by simp [Nvs.remove, applied]
      rw [same]
      exact sound.of_kept List.prefix_rfl rfl rfl rfl (.inl rfl) (.inr rests)
  | true =>
      have absent : (terminal.nvs.remove outcome).deviceSecret = none := by
        simp [Nvs.remove, applied]
      exact sound.of_quiet (Nvs.whole_of_absent absent) List.prefix_rfl (fun _ => absent)
        (by simp [Nvs.remove, applied]) (by simp [Nvs.remove, applied]) (.inl rfl) (.inr rests)

theorem Sound.erased (sound : terminal.Sound) {provisioned : Bool} {net : NetTask}
    {loop : LoopTask} (netRests : net.work.Rests terminal.accepted)
    (loopKept : loop = terminal.loop ∨ loop.work.Rests terminal.accepted) :
    ({ terminal with
      nvs := terminal.nvs.eraseToken outcome, provisioned, net, loop } : Terminal).Sound := by
  have kept : (terminal.nvs.eraseToken outcome).deviceSecret = terminal.nvs.deviceSecret ∧
      (terminal.nvs.eraseToken outcome).deviceId = terminal.nvs.deviceId ∧
      (terminal.nvs.eraseToken outcome).keyVersion = terminal.nvs.keyVersion := by
    simp only [Nvs.eraseToken]
    split <;> exact ⟨rfl, rfl, rfl⟩
  exact sound.of_kept List.prefix_rfl kept.1 kept.2.1 kept.2.2 (.inr netRests) loopKept

theorem boot_sound (sound : terminal.Sound) (isKey eraseToken : Outcome) :
    (terminal.boot isKey eraseToken).Sound := by
  have rests : Work.nothing.Rests terminal.accepted := Work.rests_nothing
  simp only [boot]
  split
  · exact sound.erased rests (.inr rests)
  · exact sound.of_kept List.prefix_rfl rfl rfl rfl (.inr rests) (.inr rests)

theorem Sound.netStored (sound : terminal.Sound)
    (clear : terminal.net.work.Clear terminal.loop.work terminal.nvs outcome)
    (net : terminal.net = .store attempt call) :
    ({ terminal with
      nvs := (storeDeviceIdentity terminal.nvs attempt outcome call).1
      net := .afterStore attempt (storeDeviceIdentity terminal.nvs attempt outcome call).2 } :
      Terminal).Sound := by
  have work : terminal.net.work = .stores attempt call := by rw [net]; rfl
  have fine := sound.net
  have apart := sound.apart
  rw [work] at fine apart clear
  have called := storeDeviceIdentity_called sound.whole fine sound.loop apart clear
  have after := NetTask.afterStore_work attempt
    (storeDeviceIdentity terminal.nvs attempt outcome call).2
  have later := called.fine
  have laterApart := called.apart
  rw [← after] at later laterApart
  exact ⟨called.whole, later, called.besideFine, laterApart⟩

theorem Sound.loopStored (sound : terminal.Sound)
    (clear : terminal.loop.work.Clear terminal.net.work terminal.nvs outcome)
    (loop : terminal.loop = .store attempt call) :
    ({ terminal with
      nvs := (storeDeviceIdentity terminal.nvs attempt outcome call).1
      loop := .afterStore attempt (storeDeviceIdentity terminal.nvs attempt outcome call).2 } :
      Terminal).Sound := by
  have work : terminal.loop.work = .stores attempt call := by rw [loop]; rfl
  have fine := sound.loop
  have apart : call.midway = true → terminal.net.work.midway = false := by
    intro midway
    have mine : terminal.loop.work.midway = true := by rwa [work]
    exact Bool.eq_false_iff.mpr fun theirs => by simp [sound.apart theirs] at mine
  rw [work] at fine clear
  have called := storeDeviceIdentity_called sound.whole fine sound.net apart clear
  have after := LoopTask.afterStore_work attempt
    (storeDeviceIdentity terminal.nvs attempt outcome call).2
  have later := called.fine
  rw [← after] at later
  refine ⟨called.whole, called.besideFine, later, fun theirs => ?_⟩
  rw [after]
  exact Bool.eq_false_iff.mpr fun mine => by simp [called.apart mine] at theirs

theorem Stepped.sound {event : Event} (stepped : terminal.Stepped event next)
    (sound : terminal.Sound) (clear : terminal.Clear event) : next.Sound := by
  have rests : Work.nothing.Rests terminal.accepted := Work.rests_nothing
  cases stepped with
  | booted isKey eraseToken => exact boot_sound sound isKey eraseToken
  | entered => exact sound.of_kept List.prefix_rfl rfl rfl rfl (.inl rfl) (.inl rfl)
  | asked net quiet =>
      exact sound.of_kept List.prefix_rfl rfl rfl rfl (.inr (by rwa [quiet])) (.inl rfl)
  | turnedDown net quiet =>
      exact sound.of_kept List.prefix_rfl rfl rfl rfl (.inr (by rwa [quiet])) (.inl rfl)
  | answered result wellFormed =>
      have opening := Work.rests_opening (terminal.attempt_known wellFormed)
      exact sound.of_kept (List.prefix_append ..) rfl rfl rfl (.inr opening) (.inl rfl)
  | netStored attempt call net => exact sound.netStored clear net
  | tokenErased => exact sound.erased rests (.inl rfl)
  | notCommanded => exact sound
  | commanded result wellFormed =>
      have held := Work.rests_holds (terminal.attempt_known wellFormed)
      exact sound.of_kept (List.prefix_append ..) rfl rfl rfl (.inl rfl) (.inr held)
  | loopStored attempt call loop => exact sound.loopStored clear loop
  | loopWent loop _ goes =>
      exact sound.of_kept List.prefix_rfl rfl rfl rfl (.inl rfl) (.inr (goes.rests sound.loop))
  | loopRemoved loop _ goes => exact sound.removed (goes.rests sound.loop)

theorem step_sound {event : Event} (sound : terminal.Sound) (clear : terminal.Clear event)
    (stepped : terminal.step event = some next) : next.Sound :=
  (stepped_of_step stepped).sound sound clear

theorem fresh_sound : fresh.Sound where
  whole := Nvs.whole_of_absent rfl
  net := trivial
  loop := trivial
  apart := fun _ => rfl

/-- Attempts that each begin without a `device_secret`, and one at a time, never leave a
mixture. -/
theorem whole_of_clear {events : List Event} (clear : Along step Clear fresh events)
    (ran : run step fresh events = some terminal) : terminal.Whole :=
  (Along.invariant (fun _ _ _ => step_sound) fresh_sound clear ran).whole

def answerBody (deviceId secret : String) : List UInt8 :=
  ascii "\x7b\"device_id\":\"" ++ ascii deviceId ++ ascii "\",\"device_secret\":\"" ++
    ascii secret ++ ascii "\",\"key_version\":1,\"server_time_ms\":1\x7d"

def firstAnswer : List UInt8 :=
  answerBody "00000000-0000-4000-8000-00000000000a" "AAAAAAAAAAAAAAAAAAAAAAAAAAAAAAAAAAAAAAAAAAA="

def secondAnswer : List UInt8 :=
  answerBody "00000000-0000-4000-8000-00000000000b" "//////////////////////////////////////////8="

def benchLine : List UInt8 :=
  ascii "BENCH-SECRET 00000000-0000-4000-8000-00000000000c " ++
    ascii "00000000000000000000000000000000ffffffffffffffffffffffffffffffff 3"

/-- A terminal that is provisioned without a fault and then given another identity on the
bench. -/
def provisionedTwice : List Event :=
  [.enterToken .done .done, .provision .done, .answer 200 firstAnswer, .net .done, .net .done,
    .net .done, .net .done, .net .done, .boot .done .done, .bench benchLine, .loop .done,
    .loop .done, .loop .done, .loop .done, .loop .done, .loop .done, .loop .done, .loop .done,
    .loop .done, .boot .done .done]

theorem provisionedTwice_whole :
    ∃ terminal, run step fresh provisionedTwice = some terminal ∧
      terminal.provisioned = true ∧ terminal.Whole := by
  have ends : (run step fresh provisionedTwice).map Terminal.provisioned = some true := by
    decide +kernel
  obtain ⟨terminal, ran, provisioned⟩ := Option.map_eq_some_iff.mp ends
  exact ⟨terminal, ran, provisioned, whole_of_clear (by decide +kernel) ran⟩

/-- The secret of the first answer is stored but cannot be read back, so the token is
exchanged again, and the power fails once the second answer's id is stored. -/
def readBackFails : List Event :=
  [.enterToken .done .done, .provision .done, .answer 200 firstAnswer, .net .done, .net .done,
    .net .done, .net .failed, .provision .done, .answer 200 secondAnswer, .net .done,
    .boot .done .done]

/-- The boot finds the first secret next to the second id. -/
theorem readBackFails_mixed :
    ∃ terminal, run step fresh readBackFails = some terminal ∧
      terminal.provisioned = true ∧ ¬ terminal.Whole := by
  have ends : (run step fresh readBackFails).map
      (fun terminal => (terminal.provisioned, terminal.nvs.deviceId.map Stamped.origin,
        terminal.nvs.deviceSecret.map Stamped.origin)) = some (true, some 1, some 0) := by
    decide +kernel
  obtain ⟨terminal, ran, found⟩ := Option.map_eq_some_iff.mp ends
  simp only [Prod.mk.injEq, Option.map_eq_some_iff] at found
  obtain ⟨provisioned, ⟨deviceId, stored, second⟩, ⟨secret, present, first⟩⟩ := found
  exact ⟨terminal, ran, provisioned,
    Nvs.not_whole_of_differs stored present (by rw [first, second]; decide)⟩

end Terminal

end Presence.Firmware.DeviceIdentity
