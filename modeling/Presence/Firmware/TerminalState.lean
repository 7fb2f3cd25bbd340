import Mathlib.Algebra.Group.Nat.Defs
import Mathlib.Data.Nat.Basic

namespace Presence.Firmware

/-! # The state of the terminal

`terminal_state.h`: which state the terminal is in, computed from what setup and the
tasks have noted.  Only the scan task notes anything of the sensor or the buffer once
it runs.
-/

inductive TerminalState where
  | boot | selfTest | provision | timeSync | ready | enroll | ota | fault
deriving DecidableEq, Repr

def kSensorLostAfter : UInt8 := 5
def kSensorProbeMinMs : UInt32 := 2000
def kSensorProbeMaxMs : UInt32 := 60000

inductive Phase where
  | boot | selfTest | running
deriving DecidableEq, Repr

structure TerminalStatus where
  phase : Phase
  sensorOk : Bool
  bufferOk : Bool
  bufferFailed : Bool
  provisioned : Bool
  commErrors : UInt8
  failedProbes : UInt8
deriving DecidableEq, Repr

namespace TerminalStatus

def initial : TerminalStatus := ⟨.boot, false, false, false, false, 0, 0⟩

def beginSelfTest (status : TerminalStatus) : TerminalStatus := { status with phase := .selfTest }

def selfTestDone (status : TerminalStatus) : TerminalStatus := { status with phase := .running }

def setSensorOk (status : TerminalStatus) (ok : Bool) : TerminalStatus :=
  { status with
    sensorOk := ok
    commErrors := 0
    failedProbes := if ok then 0 else status.failedProbes }

/-- With whether this error is the one that marks the sensor lost. -/
def noteSensorCommError (status : TerminalStatus) : Bool × TerminalStatus :=
  if !status.sensorOk then (false, status)
  else
    let commErrors := status.commErrors + 1
    if commErrors < kSensorLostAfter then (false, { status with commErrors })
    else (true, { status with sensorOk := false, commErrors := 0, failedProbes := 0 })

def noteSensorReplied (status : TerminalStatus) : TerminalStatus := { status with commErrors := 0 }

def noteSensorProbe (status : TerminalStatus) (ok : Bool) : TerminalStatus :=
  if ok then status.setSensorOk true
  else if status.failedProbes < 31 then { status with failedProbes := status.failedProbes + 1 }
  else status

def sensorProbeDelayMs (status : TerminalStatus) : UInt32 :=
  let n : UInt32 := status.failedProbes.toUInt32
  if n ≥ 5 then kSensorProbeMaxMs
  else
    let d := kSensorProbeMinMs <<< n
    if d > kSensorProbeMaxMs then kSensorProbeMaxMs else d

def setBufferOpened (status : TerminalStatus) (ok : Bool) : TerminalStatus :=
  { status with bufferOk := ok && !status.bufferFailed }

def noteBufferWriteFailed (status : TerminalStatus) : TerminalStatus :=
  { status with bufferFailed := true, bufferOk := false }

def setProvisioned (status : TerminalStatus) (p : Bool) : TerminalStatus :=
  { status with provisioned := p }

def state (status : TerminalStatus) : TerminalState :=
  match status.phase with
  | .boot => .boot
  | .selfTest => .selfTest
  | .running =>
      if !status.sensorOk || !status.bufferOk then .fault
      else if !status.provisioned then .provision
      else .ready

/-- Nothing but what is noted of the sensor differs. -/
structure SameElse (status next : TerminalStatus) : Prop where
  phase : next.phase = status.phase
  bufferOk : next.bufferOk = status.bufferOk
  bufferFailed : next.bufferFailed = status.bufferFailed
  provisioned : next.provisioned = status.provisioned

theorem sameElse_commError (status : TerminalStatus) :
    status.SameElse status.noteSensorCommError.2 := by
  simp only [noteSensorCommError]
  split
  · exact ⟨rfl, rfl, rfl, rfl⟩
  · split <;> exact ⟨rfl, rfl, rfl, rfl⟩

theorem sameElse_probe (status : TerminalStatus) (ok : Bool) :
    status.SameElse (status.noteSensorProbe ok) := by
  simp only [noteSensorProbe]
  split
  · exact ⟨rfl, rfl, rfl, rfl⟩
  · split <;> exact ⟨rfl, rfl, rfl, rfl⟩

theorem sameElse_replied (status : TerminalStatus) : status.SameElse status.noteSensorReplied :=
  ⟨rfl, rfl, rfl, rfl⟩

theorem state_eq_ready {status : TerminalStatus} : status.state = .ready ↔
    status.phase = .running ∧ status.sensorOk = true ∧ status.bufferOk = true ∧
      status.provisioned = true := by
  obtain ⟨phase, sensorOk, bufferOk, _, provisioned, _, _⟩ := status
  cases phase <;> cases sensorOk <;> cases bufferOk <;> cases provisioned <;> simp [state]

theorem state_eq_fault {status : TerminalStatus} : status.state = .fault ↔
    status.phase = .running ∧ (status.sensorOk = false ∨ status.bufferOk = false) := by
  obtain ⟨phase, sensorOk, bufferOk, _, provisioned, _, _⟩ := status
  cases phase <;> cases sensorOk <;> cases bufferOk <;> cases provisioned <;> simp [state]

/-- Two seconds, doubled for each failure counted, and never more than a minute. -/
theorem sensorProbeDelayMs_eq {status : TerminalStatus} {failures : Nat}
    (counted : status.failedProbes.toNat = min failures 31) :
    status.sensorProbeDelayMs.toNat = min (2000 * 2 ^ failures) 60000 := by
  simp only [sensorProbeDelayMs]
  by_cases few : failures < 5
  · have same : status.failedProbes = UInt8.ofNat failures := by
      apply UInt8.toNat_inj.mp
      rw [counted, UInt8.toNat_ofNat']
      omega
    have count : failures = 0 ∨ failures = 1 ∨ failures = 2 ∨ failures = 3 ∨ failures = 4 := by
      omega
    rw [same]
    obtain rfl | rfl | rfl | rfl | rfl := count <;> rfl
  · have many : status.failedProbes.toUInt32 ≥ 5 := by
      rw [ge_iff_le, UInt32.le_iff_toNat_le, UInt8.toNat_toUInt32, counted]
      exact Nat.le_min.mpr ⟨Nat.le_of_not_lt few, by decide⟩
    have large : 2 ^ 5 ≤ 2 ^ failures := Nat.pow_le_pow_right (by decide) (Nat.le_of_not_lt few)
    rw [if_pos many, Nat.min_eq_right (by omega)]
    rfl

end TerminalStatus

end Presence.Firmware
