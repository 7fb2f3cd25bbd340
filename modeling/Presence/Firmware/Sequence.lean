import Presence.Firmware.RingQueue

namespace Presence.Firmware.Sequence

open Presence.Data

/-! # Sequence numbers

`nextSeq`, the append it numbers, and the counter that a boot reads back.  A write to
NVS may fail, and power may go inside a punch: after the number was taken, or after
some of the storage calls of `append`.
-/

structure Terminal where
  /-- `g_seq` -/
  counter : UInt64
  /-- `seq` in NVS -/
  stored : Option UInt64
  device : RingQueue.Device
  /-- The records for which `append` returned true, newest first. -/
  accepted : List PunchRecord

inductive Event where
  | punch (record : PunchRecord) (commits : Bool) (faults : Faults)
  | cut (record : PunchRecord) (commits : Bool) (faults : Faults) (performed : Nat)
  | reboot

namespace Terminal

/-- The counter moves on whether or not NVS took it. -/
def nextSeq (terminal : Terminal) (commits : Bool) : Terminal :=
  let counter := terminal.counter + 1
  { terminal with counter, stored := if commits then some counter else terminal.stored }

def boot (terminal : Terminal) (storage : Storage) : Terminal :=
  { terminal with counter := terminal.stored.getD 0, device := RingQueue.boot storage }

/-- A terminal out of the box. -/
def fresh (storage : Storage) : Terminal := boot ⟨0, none, RingQueue.boot storage, []⟩ storage

def append (terminal : Terminal) (faults : Faults) (record : PunchRecord) : Terminal :=
  let (ring, calls, stored) := terminal.device.ring.append faults record
  { terminal with
    device := ⟨terminal.device.storage.performAll calls, ring⟩
    accepted := if stored then record :: terminal.accepted else terminal.accepted }

def step (terminal : Terminal) : Event → Option Terminal
  | .punch record commits faults =>
      let numbered := terminal.nextSeq commits
      some (numbered.append faults { record with seq := numbered.counter })
  | .cut record commits faults performed =>
      let numbered := terminal.nextSeq commits
      let (_, calls, _) := numbered.device.ring.append faults { record with seq := numbered.counter }
      some (numbered.boot (numbered.device.storage.performAll (calls.take performed)))
  | .reboot => some (terminal.boot terminal.device.storage)

/-- Newer records have larger numbers. -/
def Increasing (terminal : Terminal) : Prop :=
  terminal.accepted.Pairwise fun newer older => older.seq < newer.seq

/-- NVS holds a number no accepted record is above. -/
def Committed (terminal : Terminal) : Prop :=
  ∀ record ∈ terminal.accepted, record.seq ≤ terminal.stored.getD 0

/-- The number of every accepted record, or a later one, reached NVS before the terminal
restarts, and the counter is not at its last value. -/
def CommitsBeforeRestart (terminal : Terminal) : Event → Prop
  | .punch _ _ _ => terminal.counter.toNat + 1 < 2 ^ 64
  | .cut _ commits _ _ => terminal.counter.toNat + 1 < 2 ^ 64 ∧ (commits = true ∨ terminal.Committed)
  | .reboot => terminal.Committed

instance (terminal : Terminal) : Decidable terminal.Committed :=
  List.decidableBAll (fun record : PunchRecord => record.seq ≤ terminal.stored.getD 0) terminal.accepted

instance (terminal : Terminal) : (event : Event) → Decidable (terminal.CommitsBeforeRestart event)
  | .punch _ _ _ => Nat.decLt _ _
  | .cut _ _ _ _ => instDecidableAnd
  | .reboot => inferInstanceAs (Decidable terminal.Committed)

structure Sound (terminal : Terminal) : Prop where
  increasing : terminal.Increasing
  reached : ∀ record ∈ terminal.accepted, record.seq ≤ terminal.counter

variable {terminal next : Terminal}

theorem sound_fresh (storage : Storage) : (fresh storage).Sound :=
  ⟨List.Pairwise.nil, by simp [fresh, boot]⟩

theorem lt_succ {counter : UInt64} (below : counter.toNat + 1 < 2 ^ 64) : counter < counter + 1 := by
  rw [UInt64.lt_iff_toNat_lt, UInt64.toNat_add, UInt64.toNat_one, Nat.mod_eq_of_lt below]
  exact Nat.lt_succ_self _

/-- The new number is above every accepted one. -/
theorem Sound.above (sound : terminal.Sound) (below : terminal.counter.toNat + 1 < 2 ^ 64) :
    ∀ record ∈ terminal.accepted, record.seq < terminal.counter + 1 :=
  fun record member => UInt64.lt_of_le_of_lt (sound.reached record member) (lt_succ below)

theorem Sound.boot (increasing : terminal.Increasing) (committed : terminal.Committed)
    (storage : Storage) : (terminal.boot storage).Sound :=
  ⟨increasing, committed⟩

theorem Sound.punch (sound : terminal.Sound) (below : terminal.counter.toNat + 1 < 2 ^ 64)
    (record : PunchRecord) (commits : Bool) (faults : Faults) :
    ((terminal.nextSeq commits).append faults
      { record with seq := terminal.counter + 1 }).Sound := by
  have above := sound.above below
  unfold append
  dsimp only
  split
  next =>
    refine ⟨List.pairwise_cons.mpr ⟨above, sound.increasing⟩, List.forall_mem_cons.mpr ⟨?_, ?_⟩⟩
    · exact UInt64.le_refl _
    · exact fun other member => UInt64.le_of_lt (above other member)
  next => exact ⟨sound.increasing, fun other member => UInt64.le_of_lt (above other member)⟩

theorem Sound.step (sound : terminal.Sound) {event : Event} (met : terminal.CommitsBeforeRestart event)
    (taken : terminal.step event = some next) : next.Sound := by
  cases event with
  | punch record commits faults =>
      cases taken
      exact sound.punch met record commits faults
  | cut record commits faults performed =>
      cases taken
      refine @Sound.boot (terminal.nextSeq commits) sound.increasing ?_ _
      obtain ⟨below, committed⟩ := met
      cases commits with
      | true => exact fun other member => UInt64.le_of_lt (sound.above below other member)
      | false => exact committed.resolve_left Bool.false_ne_true
  | reboot =>
      cases taken
      exact Sound.boot sound.increasing met _

/-- No number is used twice in a run that restarts only on committed numbers. -/
theorem seq_increasing_of_committed (storage : Storage) (events : List Event) (final : Terminal)
    (along : Along step CommitsBeforeRestart (fresh storage) events)
    (ran : run step (fresh storage) events = some final) : final.Increasing := by
  have sound := Along.invariant (fun _ _ _ sound met taken => Sound.step sound met taken)
    (sound_fresh storage) along ran
  exact sound.increasing

open PowerCut.Terminal (punch)

def blank : Storage := ⟨120, fun _ => punch 0, none⟩

/-- NVS misses the number of the first punch, and the restart hands it out again. -/
def uncommitted : List Event :=
  [.punch (punch 0) false .none, .reboot, .punch (punch 0) true .none]

theorem seq_reused_after_uncommitted :
    ∃ final, run step (fresh blank) uncommitted = some final ∧
      final.accepted.map PunchRecord.seq = [1, 1] ∧ ¬ final.Increasing := by
  refine ⟨_, rfl, by decide, ?_⟩
  simp only [Increasing]
  decide

/-- A later number that reaches NVS before the restart is enough. -/
def recommitted : List Event :=
  [.punch (punch 0) false .none, .punch (punch 0) true { writeAt := true }, .reboot,
    .cut (punch 0) false .none 1, .punch (punch 0) true .none]

theorem seq_increasing_of_recommitted :
    ∃ final, run step (fresh blank) recommitted = some final ∧
      final.accepted.map PunchRecord.seq = [3, 1] ∧ final.Increasing := by
  have along : Along step CommitsBeforeRestart (fresh blank) recommitted := by
    decide
  exact ⟨_, rfl, by decide, seq_increasing_of_committed blank recommitted _ along rfl⟩

end Terminal

end Presence.Firmware.Sequence
