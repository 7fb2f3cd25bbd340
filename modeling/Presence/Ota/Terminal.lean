import Presence.Data.Run
import Presence.Go.Sha256
import Presence.Ota.Guard
import Presence.Ota.Signing

namespace Presence.Ota

open Presence.Data Presence.Firmware Presence.Go

/-! # A terminal with two slots

The bootloader is the one of the host tests: two app slots, otadata, and the
rollback rules of the IDF.  `applyOta` is the flash plumbing of `main.cpp`.  An
image is its bytes; a slot that was erased or written only in part holds none.
-/

inductive SlotId where
  | app0 | app1
deriving DecidableEq, Repr

def SlotId.other : SlotId → SlotId
  | .app0 => .app1
  | .app1 => .app0

@[simp] theorem SlotId.other_ne (id : SlotId) : id.other ≠ id := by
  cases id <;> decide

@[simp] theorem SlotId.ne_other (id : SlotId) : id ≠ id.other := by
  cases id <;> decide

@[simp] theorem SlotId.other_other (id : SlotId) : id.other.other = id := by
  cases id <;> rfl

inductive ImgState where
  | none | new | pendingVerify | valid | invalid | aborted
deriving DecidableEq, Repr

/-- `hasEntry` tells whether otadata names the slot.  Every update takes one number
for `seq`, so that it stays far from the limit of its type. -/
structure Slot where
  image : Option (List UInt8)
  hasEntry : Bool
  seq : Nat
  state : ImgState
deriving DecidableEq, Repr

def Slot.blank : Slot := ⟨none, false, 0, .none⟩

def Slot.selectable (slot : Slot) : Bool :=
  slot.hasEntry && slot.state != .invalid && slot.state != .aborted

structure SimDevice where
  slot : SlotId → Slot
  running : SlotId

namespace SimDevice

def usbFlash (image : List UInt8) : SimDevice where
  slot id :=
    match id with
    | .app0 => { Slot.blank with image := some image }
    | .app1 => .blank
  running := .app0

def idle (device : SimDevice) : SlotId := device.running.other

def set (device : SimDevice) (id : SlotId) (slot : Slot) : SimDevice :=
  { device with slot := Function.update device.slot id slot }

/-- The first pass of the bootloader: an image that rebooted unconfirmed. -/
def abortPending (slot : Slot) : Slot :=
  if slot.hasEntry && slot.state == .pendingVerify then { slot with state := .aborted } else slot

/-- The newest selectable slot; with none at all, "trying OTA 0". -/
def pick (slot : SlotId → Slot) : SlotId :=
  if (slot .app0).selectable then
    if (slot .app1).selectable && decide ((slot .app0).seq < (slot .app1).seq) then .app1 else .app0
  else if (slot .app1).selectable then .app1
  else .app0

def bootloader (device : SimDevice) : SimDevice :=
  let slot := fun id => abortPending (device.slot id)
  let running := pick slot
  let picked := slot running
  { slot :=
      if picked.hasEntry && picked.state == .new then
        Function.update slot running { picked with state := .pendingVerify }
      else slot
    running }

def runningSlot (device : SimDevice) : Slot := device.slot device.running

def runningPending (device : SimDevice) : Bool :=
  device.runningSlot.hasEntry && device.runningSlot.state == .pendingVerify

def markValid (device : SimDevice) : SimDevice :=
  if device.runningSlot.hasEntry then
    device.set device.running { device.runningSlot with state := .valid }
  else device

def rollback (device : SimDevice) : SimDevice :=
  if (device.slot device.idle).selectable then
    device.set device.running { device.runningSlot with state := .invalid }
  else device

/-- `esp_ota_set_boot_partition` on the idle slot. -/
def setBootIdle (device : SimDevice) : SimDevice :=
  device.set device.idle
    { device.slot device.idle with
      hasEntry := true
      seq := max (device.slot .app0).seq (device.slot .app1).seq + 1
      state := .new }

def writeIdle (device : SimDevice) (image : Option (List UInt8)) : SimDevice :=
  device.set device.idle { device.slot device.idle with image }

end SimDevice

/-! ## What survives a reset

`confirmed` is no part of the terminal: it lists the images that were marked valid,
newest first, down to the original one.
-/

inductive FlashCall where
  | guard (call : Call)
  | eraseIdle
  | writeIdle (image : List UInt8)
  | setBootIdle

def FlashCall.writesIdle : FlashCall → Bool
  | .eraseIdle | .writeIdle _ => true
  | _ => false

structure Flash where
  device : SimDevice
  nvs : Option OtaPersistedState
  confirmed : List (List UInt8)

namespace Flash

def perform (flash : Flash) : FlashCall → Flash
  | .guard (.save st) => { flash with nvs := some st }
  | .guard .markValid =>
      { flash with
        device := flash.device.markValid
        confirmed := flash.device.runningSlot.image.toList ++ flash.confirmed }
  | .guard .rollback => { flash with device := flash.device.rollback }
  | .guard .restart => flash
  | .eraseIdle => { flash with device := flash.device.writeIdle none }
  | .writeIdle image => { flash with device := flash.device.writeIdle (some image) }
  | .setBootIdle => { flash with device := flash.device.setBootIdle }

def performAll (flash : Flash) (calls : List FlashCall) : Flash := calls.foldl perform flash

def floor (flash : Flash) : UInt64 := (OtaPersistedState.usable flash.nvs).floor

end Flash

/-! ## Installing an update -/

structure Release where
  ed : Ed25519
  publicKey : PublicKey

/-- The width of a `size_t` on the ESP32. -/
def terminalSizeBits : Nat := 32

structure Offer where
  version : List UInt8
  size : Nat
  sha256 : Sha256
  signature : Signature

/-- How the download into the idle slot ends.  What each byte of the flash then holds
need not be what came over the wire. -/
inductive Transfer where
  | truncated
  | writeFailed
  | complete (content : Nat → UInt8)

/-- What the flash answers during one update.  `erased` is how far a failing
`esp_ota_begin` got, `cleared` whether NVS took the second write of an update that
could not be made bootable. -/
structure Flashing where
  slotSize : Nat
  memory : Bool
  begun : Bool
  erased : Bool
  transfer : Transfer
  wellFormed : Bool
  readBack : Bool
  bootSet : Bool
  cleared : Bool

inductive OtaResult where
  | applied
  | transient (reason : String)
  | rejected (reason : String)
deriving DecidableEq, Repr

def digest (image : List UInt8) : Sha256 :=
  ⟨(Sha256.sum256 image).toArray, by simp⟩

def kOtaChunk : Nat := 4096

/-- The read-back loop, with so many rounds left. -/
def readBackChunks : Nat → List UInt8 → List (List UInt8)
  | 0, _ => []
  | rounds + 1, image =>
      if image.isEmpty then [] else image.take kOtaChunk :: readBackChunks rounds (image.drop kOtaChunk)

def verdict (release : Release) (offer : Offer) (stored : List UInt8) : OtaVerdict :=
  let verifier := ImageVerifier.init release.publicKey offer.signature offer.version offer.size
  let chunks := readBackChunks (stored.length / kOtaChunk + 1) stored
  ((verifier.feed terminalSizeBits chunks).finish release.ed).1

theorem readBackChunks_flatten {rounds : Nat} {image : List UInt8}
    (enough : image.length ≤ rounds * kOtaChunk) :
    (readBackChunks rounds image).flatten = image := by
  induction rounds generalizing image with
  | zero =>
      have empty : image = [] := List.eq_nil_of_length_eq_zero (by omega)
      rw [empty]
      rfl
  | succ rounds ih =>
      simp only [readBackChunks]
      split
      next empty =>
        rw [List.isEmpty_iff.mp empty]
        rfl
      next =>
        have smaller : (image.drop kOtaChunk).length ≤ rounds * kOtaChunk := by
          rw [Nat.succ_mul] at enough
          rw [List.length_drop]
          omega
        rw [List.flatten_cons, ih smaller, List.take_append_drop]

/-- What passes was signed by the release key under this version. -/
theorem verdict_ok {release : Release} {offer : Offer} {stored : List UInt8}
    (length : stored.length = offer.size) (verified : verdict release offer stored = .ok) :
    (parse offer.version).isSome = true ∧
      release.ed.check offer.signature release.publicKey (signedMessage offer.version stored) = true := by
  have enough : stored.length ≤ (stored.length / kOtaChunk + 1) * kOtaChunk := by
    have split := Nat.div_add_mod stored.length kOtaChunk
    have below := Nat.mod_lt stored.length (show 0 < kOtaChunk by decide)
    rw [Nat.succ_mul, Nat.mul_comm]
    omega
  obtain ⟨-, versioned, -, counted, checked⟩ := ImageVerifier.finish_feed_ok_iff _ |>.mp verified
  rw [readBackChunks_flatten enough] at counted checked
  have bounded : offer.size < 2 ^ 63 := by
    rw [terminalSizeBits, length] at counted
    omega
  rw [parseOtaVersion_eq] at versioned
  rw [otaSignedPreamble_eq _ bounded] at checked
  rw [signedMessage, length]
  exact ⟨versioned, checked⟩

/-- The part of `applyOta` that follows the checks on the image in flash. -/
def commitOta (guard : OtaGuard) (offer : Offer) (flashing : Flashing) (outcome : Outcome) :
    OtaGuard × List FlashCall × OtaResult :=
  let (guard, noted, recorded) := guard.notePending offer.version offer.sha256 outcome
  if !recorded then
    (guard, noted.map .guard ++ [.eraseIdle],
      .transient "could not record the pending update in NVS")
  else if !flashing.bootSet then
    let (guard, cleared) := guard.clearPending { outcome with saved := flashing.cleared }
    (guard, noted.map .guard ++ cleared.map .guard ++ [.eraseIdle],
      .transient "esp_ota_set_boot_partition failed")
  else (guard, noted.map .guard ++ [.setBootIdle], .applied)

def storeOta (release : Release) (guard : OtaGuard) (offer : Offer) (flashing : Flashing)
    (outcome : Outcome) : OtaGuard × List FlashCall × OtaResult :=
  match flashing.transfer with
  | .truncated => (guard, [.eraseIdle, .eraseIdle], .transient "download truncated")
  | .writeFailed => (guard, [.eraseIdle, .eraseIdle], .transient "flash write failed")
  | .complete content =>
      let stored := (List.range offer.size).map content
      let written := [.eraseIdle, .writeIdle stored]
      if !flashing.wellFormed then
        (guard, written ++ [.eraseIdle], .rejected "not a valid app image")
      else if !flashing.readBack then
        (guard, written ++ [.eraseIdle], .transient "flash read-back failed")
      else if digest stored ≠ offer.sha256 then
        (guard, written ++ [.eraseIdle], .rejected "sha256 does not match manifest")
      else if verdict release offer stored ≠ .ok then
        (guard, written ++ [.eraseIdle], .rejected (otaVerdictName (verdict release offer stored)))
      else
        let (guard, calls, result) := commitOta guard offer flashing outcome
        (guard, written ++ calls, result)

def applyOta (release : Release) (guard : OtaGuard) (offer : Offer) (flashing : Flashing)
    (outcome : Outcome) : OtaGuard × List FlashCall × OtaResult :=
  if isUnusableKey release.publicKey then
    (guard, [], .rejected "no usable release key compiled in")
  else if offer.size = 0 then (guard, [], .rejected "empty image")
  else if guard.check offer.version offer.sha256 ≠ .accept then
    (guard, [], .rejected (otaCandidateName (guard.check offer.version offer.sha256)))
  else if flashing.slotSize < offer.size then
    (guard, [], .rejected "image larger than the OTA slot")
  else if !flashing.memory then (guard, [], .transient "out of memory")
  else if !flashing.begun then
    (guard, if flashing.erased then [.eraseIdle] else [], .transient "esp_ota_begin failed")
  else storeOta release guard offer flashing outcome

/-! What an update can do, said once. -/

/-- A call that leaves the other slot unbootable and NVS as it was, but for the
pending update. -/
inductive Harmless (st : OtaPersistedState) : FlashCall → Prop where
  | eraseIdle : Harmless st .eraseIdle
  | writeIdle (image : List UInt8) : Harmless st (.writeIdle image)
  | save {after : OtaPersistedState} (keeps : Keeps st after) : Harmless st (.guard (.save after))

inductive Commit (guard : OtaGuard) : List FlashCall → OtaResult → Prop where
  | failed {calls : List FlashCall} {result : OtaResult} (unapplied : result ≠ .applied)
      (harmless : ∀ call ∈ calls, Harmless guard.st call) : Commit guard calls result
  | applied {st : OtaPersistedState} (keeps : Keeps guard.st st) :
      Commit guard [.guard (.save st), .setBootIdle] .applied

theorem harmless_erase (st : OtaPersistedState) : ∀ call ∈ [FlashCall.eraseIdle], Harmless st call := by
  intro call member
  rw [List.mem_singleton.mp member]
  exact .eraseIdle

theorem harmless_save {st after : OtaPersistedState} (outcome : Outcome) (keeps : Keeps st after) :
    ∀ call ∈ (OtaGuard.save outcome after).map FlashCall.guard, Harmless st call := by
  intro call member
  simp only [OtaGuard.save] at member
  split at member
  next =>
    rw [List.mem_singleton.mp member]
    exact .save keeps
  next => cases member

theorem commitOta_spec (guard : OtaGuard) (offer : Offer) (flashing : Flashing)
    (outcome : Outcome) :
    let done := commitOta guard offer flashing outcome
    Kept guard done.1 ∧ Commit guard done.2.1 done.2.2 := by
  unfold commitOta OtaGuard.notePending
  cases parseOtaVersion offer.version with
  | none => exact ⟨.refl guard, .failed (by simp) (harmless_erase _)⟩
  | some pendingVersion =>
      cases saved : outcome.saved with
      | false =>
          refine ⟨⟨rfl, rfl, ⟨rfl, rfl, rfl, rfl⟩⟩, .failed (by simp) ?_⟩
          exact List.forall_mem_append.mpr
            ⟨harmless_save outcome ⟨rfl, rfl, rfl, rfl⟩, harmless_erase _⟩
      | true =>
          cases flashing.bootSet with
          | false =>
              refine ⟨⟨rfl, rfl, ⟨rfl, rfl, rfl, rfl⟩⟩, .failed (by simp) ?_⟩
              exact List.forall_mem_append.mpr ⟨List.forall_mem_append.mpr
                ⟨harmless_save outcome ⟨rfl, rfl, rfl, rfl⟩,
                  harmless_save _ ⟨rfl, rfl, rfl, rfl⟩⟩, harmless_erase _⟩
          | true =>
              simp only [OtaGuard.save, saved]
              exact ⟨⟨rfl, rfl, ⟨rfl, rfl, rfl, rfl⟩⟩, .applied ⟨rfl, rfl, rfl, rfl⟩⟩

/-- An update writes nothing unless the guard accepts it, and makes nothing bootable
unless the release key signed what the slot holds. -/
inductive Applied (release : Release) (guard : OtaGuard) (offer : Offer) :
    List FlashCall → OtaResult → Prop where
  | refused {result : OtaResult} (unapplied : result ≠ .applied) :
      Applied release guard offer [] result
  | failed {calls : List FlashCall} {result : OtaResult}
      (accepted : guard.check offer.version offer.sha256 = .accept) (unapplied : result ≠ .applied)
      (harmless : ∀ call ∈ calls, Harmless guard.st call) : Applied release guard offer calls result
  | applied {stored : List UInt8} {st : OtaPersistedState}
      (accepted : guard.check offer.version offer.sha256 = .accept)
      (length : stored.length = offer.size) (verified : verdict release offer stored = .ok)
      (keeps : Keeps guard.st st) :
      Applied release guard offer
        [.eraseIdle, .writeIdle stored, .guard (.save st), .setBootIdle] .applied

def Installs (release : Release) (guard : OtaGuard) (offer : Offer)
    (done : OtaGuard × List FlashCall × OtaResult) : Prop :=
  Kept guard done.1 ∧ Applied release guard offer done.2.1 done.2.2

theorem storeOta_spec (release : Release) (guard : OtaGuard) (offer : Offer) (flashing : Flashing)
    (outcome : Outcome) (accepted : guard.check offer.version offer.sha256 = .accept) :
    Installs release guard offer (storeOta release guard offer flashing outcome) := by
  have erase := harmless_erase guard.st
  have erased : ∀ call ∈ [FlashCall.eraseIdle, .eraseIdle], Harmless guard.st call :=
    List.forall_mem_cons.mpr ⟨.eraseIdle, erase⟩
  have given : ∀ stored, ∀ call ∈ [FlashCall.eraseIdle, .writeIdle stored] ++ [.eraseIdle],
      Harmless guard.st call :=
    fun stored => List.forall_mem_cons.mpr ⟨.eraseIdle,
      List.forall_mem_cons.mpr ⟨.writeIdle stored, erase⟩⟩
  simp only [storeOta]
  cases flashing.transfer with
  | truncated => exact ⟨.refl guard, .failed accepted (by simp) erased⟩
  | writeFailed => exact ⟨.refl guard, .failed accepted (by simp) erased⟩
  | complete content =>
      dsimp only
      have length : ((List.range offer.size).map content).length = offer.size := by simp
      generalize (List.range offer.size).map content = stored at *
      split
      next => exact ⟨.refl guard, .failed accepted (by simp) (given stored)⟩
      next =>
      split
      next => exact ⟨.refl guard, .failed accepted (by simp) (given stored)⟩
      next =>
      split
      next => exact ⟨.refl guard, .failed accepted (by simp) (given stored)⟩
      next =>
      split
      next => exact ⟨.refl guard, .failed accepted (by simp) (given stored)⟩
      next verified =>
        have committed := commitOta_spec guard offer flashing outcome
        generalize commitOta guard offer flashing outcome = done at committed ⊢
        obtain ⟨after, calls, result⟩ := done
        refine ⟨committed.1, ?_⟩
        cases committed.2 with
        | failed unapplied harmless =>
            refine .failed accepted unapplied fun call member => ?_
            rcases List.mem_append.mp member with written | later
            · exact given stored call (List.mem_append_left _ written)
            · exact harmless call later
        | applied keeps => exact .applied accepted length (not_not.mp verified) keeps

theorem applyOta_spec (release : Release) (guard : OtaGuard) (offer : Offer) (flashing : Flashing)
    (outcome : Outcome) :
    Installs release guard offer (applyOta release guard offer flashing outcome) := by
  simp only [applyOta]
  split
  next => exact ⟨.refl guard, .refused (by simp)⟩
  next =>
  split
  next => exact ⟨.refl guard, .refused (by simp)⟩
  next =>
  split
  next => exact ⟨.refl guard, .refused (by simp)⟩
  next accepted =>
  have accepted := not_not.mp accepted
  split
  next => exact ⟨.refl guard, .refused (by simp)⟩
  next =>
  split
  next => exact ⟨.refl guard, .refused (by simp)⟩
  next =>
  split
  next =>
    refine ⟨.refl guard, .failed accepted (by simp) fun call member => ?_⟩
    split at member
    next =>
      rw [List.mem_singleton.mp member]
      exact .eraseIdle
    next => cases member
  next => exact storeOta_spec release guard offer flashing outcome accepted

/-! ## Runs

Every method of the guard runs under one lock, so operations do not interleave; a
power cut comes between any two calls of one, and nothing in RAM outlives it.  A
restart and the reboot after an applied update are resets too.
-/

inductive Power where
  | off
  | started
  | on (guard : OtaGuard)

structure Terminal where
  flash : Flash
  power : Power

inductive Operation where
  | begin (timeoutMs nowMs : UInt32)
  | onHealthy
  | tick (nowMs : UInt32)
  | confirmDeadline
  | install (offer : Offer) (flashing : Flashing)

inductive Event where
  | powerOn
  | complete (operation : Operation) (outcome : Outcome)
  | cut (operation : Operation) (outcome : Outcome) (performed : Nat)
  | powerOff

namespace Terminal

def fresh (image : List UInt8) : Terminal :=
  ⟨⟨.usbFlash image, none, [image]⟩, .off⟩

section

-- the version an image was built as, and what is compiled into all of them
variable (builtAs : List UInt8 → List UInt8) (release : Release)

def runningVersion (terminal : Terminal) : List UInt8 :=
  (terminal.flash.device.runningSlot.image.map builtAs).getD []

/-- What an operation does: the guard it leaves, or none after a reset, and its
calls. -/
def perform (terminal : Terminal) (operation : Operation) (outcome : Outcome) :
    Option (Option OtaGuard × List FlashCall) :=
  match terminal.power, operation with
  | .started, .begin timeoutMs nowMs =>
      let (guard, calls) := OtaGuard.begin timeoutMs terminal.flash.nvs
        (terminal.runningVersion builtAs) terminal.flash.device.runningPending nowMs outcome
      some (some guard, calls.map .guard)
  | .on guard, .onHealthy =>
      let (guard, calls) := guard.onHealthy outcome
      some (some guard, calls.map .guard)
  | .on guard, .tick nowMs =>
      let (guard, calls) := guard.tick nowMs outcome
      some (some guard, calls.map .guard)
  | .on guard, .confirmDeadline =>
      some (if guard.awaiting then none else some guard, guard.onConfirmDeadline.map .guard)
  | .on guard, .install offer flashing =>
      let (guard, calls, result) := applyOta release guard offer flashing outcome
      some (if result = .applied then none else some guard, calls)
  | _, _ => none

def step (terminal : Terminal) : Event → Option Terminal
  | .powerOn =>
      match terminal.power with
      | .off =>
          some ⟨{ terminal.flash with device := terminal.flash.device.bootloader }, .started⟩
      | _ => none
  | .complete operation outcome =>
      match terminal.perform builtAs release operation outcome with
      | none => none
      | some (guard, calls) =>
          some ⟨terminal.flash.performAll calls,
            match guard with
            | none => .off
            | some guard => .on guard⟩
  | .cut operation outcome performed =>
      match terminal.perform builtAs release operation outcome with
      | none => none
      | some (_, calls) => some ⟨terminal.flash.performAll (calls.take performed), .off⟩
  | .powerOff => some ⟨terminal.flash, .off⟩

end

section Steps

variable {builtAs : List UInt8 → List UInt8} {release : Release} {terminal next : Terminal}

theorem step_powerOn (taken : terminal.step builtAs release .powerOn = some next) :
    terminal.power = .off ∧
      next = ⟨{ terminal.flash with device := terminal.flash.device.bootloader }, .started⟩ := by
  obtain ⟨flash, power⟩ := terminal
  cases power <;> cases taken
  exact ⟨rfl, rfl⟩

theorem step_complete {operation : Operation} {outcome : Outcome}
    (taken : terminal.step builtAs release (.complete operation outcome) = some next) :
    ∃ guard calls, terminal.perform builtAs release operation outcome = some (guard, calls) ∧
      next.flash = terminal.flash.performAll calls ∧
      next.power = guard.elim .off .on := by
  simp only [step] at taken
  split at taken
  next => cases taken
  next guard calls performed =>
    cases taken
    cases guard with
    | none => exact ⟨none, calls, performed, rfl, rfl⟩
    | some guard => exact ⟨some guard, calls, performed, rfl, rfl⟩

theorem step_cut {operation : Operation} {outcome : Outcome} {performed : Nat}
    (taken : terminal.step builtAs release (.cut operation outcome performed) = some next) :
    ∃ guard calls, terminal.perform builtAs release operation outcome = some (guard, calls) ∧
      next = ⟨terminal.flash.performAll (calls.take performed), .off⟩ := by
  simp only [step] at taken
  split at taken
  next => cases taken
  next guard calls performs =>
    cases taken
    exact ⟨guard, calls, performs, rfl⟩

end Steps

end Terminal

/-! A release line to run terminals on: an image of so many bytes was built as that
minor version, and two of them were signed. -/

def sampleBuiltAs (image : List UInt8) : List UInt8 :=
  ascii "0." ++ asciiNumerals.text image.length ++ ascii ".0"

def sampleImages : List (List UInt8) := [[2, 2], [3, 3, 3]]

def sampleRelease : Release where
  ed := ⟨fun _ _ hashed =>
    sampleImages.any fun image => hashed.drop 64 == signedMessage (sampleBuiltAs image) image⟩
  publicKey := .replicate 32 1

def sampleOffer (image : List UInt8) : Offer :=
  ⟨sampleBuiltAs image, image.length, digest image, .replicate 64 1⟩

def sampleFlashing (image : List UInt8) : Flashing where
  slotSize := 4096
  memory := true
  begun := true
  erased := true
  transfer := .complete fun index => image.getD index 0
  wellFormed := true
  readBack := true
  bootSet := true
  cleared := true

def sampleOutcome : Outcome := ⟨true, true, true⟩

/-- Boots, is healthy, and installs an image. -/
def sampleUpdate (image : List UInt8) : List Event :=
  [.powerOn, .complete (.begin 60000 0) sampleOutcome, .complete .onHealthy sampleOutcome,
    .complete (.install (sampleOffer image) (sampleFlashing image)) sampleOutcome]

end Presence.Ota
