import Presence.Data.DropOldest
import Presence.Data.Machine
import Presence.Firmware.PowerCut

namespace Presence.Firmware

open Presence.Data

/-! # The ring buffer is a drop-oldest queue

Over storage that reads back what was written, no caller can tell the ring from a
plain list of at most `slots` records, whatever cursors it was booted with.
-/

namespace RingQueue

inductive Request where
  | append (record : PunchRecord)
  | peek (max : Nat)
  | ackThrough (seq : UInt64)
  | depth
  | reboot

inductive Answer where
  | stored (success : Bool)
  | records (batch : List PunchRecord)
  | dropped (count : Nat)
  | depth (count : Nat)
  | booted

/-- A terminal with nothing but its buffer. -/
structure Device where
  storage : Storage
  ring : RingBuffer

def boot (storage : Storage) : Device := ⟨storage, .begin .none storage⟩

namespace Device

def perform (device : Device) : Request → Device × Answer
  | .append record =>
      let (ring, calls, success) := device.ring.append .none record
      (⟨device.storage.performAll calls, ring⟩, .stored success)
  | .peek max => (device, .records (device.ring.peek .none device.storage max))
  | .ackThrough seq =>
      let (ring, calls) := device.ring.ackThrough .none device.storage seq
      (⟨device.storage.performAll calls, ring⟩, .dropped (ring.tail - device.ring.tail))
  | .depth => (device, .depth device.ring.depth)
  | .reboot => (boot device.storage, .booted)

def contents (device : Device) : List PunchRecord := device.ring.contents device.storage

end Device

/-! ## What it is for -/

abbrev Queue (slots : Nat) : Type := DropOldest PunchRecord slots

def Queue.perform {slots : Nat} (queue : Queue slots) : Request → Queue slots × Answer
  | .append record => (queue.push record.withCrc, .stored true)
  | .peek max => (queue, .records ((queue.items.filter PunchRecord.intact).take max))
  | .ackThrough seq =>
      (queue.acknowledge (RingBuffer.acked seq),
        .dropped (queue.items.takeWhile (RingBuffer.acked seq)).length)
  | .depth => (queue, .depth queue.items.length)
  | .reboot => (queue, .booted)

/-! ## One request -/

structure Represents {slots : Nat} (device : Device) (queue : Queue slots) : Prop where
  sized : device.ring.slots = slots
  usable : slots ≠ 0
  settled : device.ring.Settled device.storage
  contents : device.contents = queue.items

theorem length_contents (device : Device) : device.contents.length = device.ring.depth := by
  simp [Device.contents, RingBuffer.contents, Ring.window, RingBuffer.depth]

variable {slots : Nat} {device : Device} {queue : Queue slots}

theorem Represents.depth (represents : Represents device queue) :
    device.ring.depth = queue.items.length := by
  rw [← represents.contents, length_contents]

theorem Represents.append (represents : Represents device queue) (record : PunchRecord) :
    Represents (device.perform (.append record)).1 (queue.push record.withCrc) ∧
      (device.perform (.append record)).2 = .stored true := by
  have usable : device.ring.slots ≠ 0 := represents.sized ▸ represents.usable
  have filled := @RingBuffer.contents_append device.ring device.storage usable record
  constructor
  · refine ⟨?_, represents.usable, represents.settled.append record, ?_⟩
    · change (device.ring.append .none record).1.slots = slots
      rw [RingBuffer.append_none usable]
      simpa [RingBuffer.advance] using represents.sized
    · change (device.ring.append .none record).1.contents
        (device.storage.performAll (device.ring.append .none record).2.1) = _
      rw [filled, ← Device.contents, represents.contents, DropOldest.push]
      have pressed := represents.depth
      have sized := represents.sized
      by_cases room : queue.items.length < slots
      · have spacious : device.ring.full = false := by
          rw [RingBuffer.full, decide_eq_false_iff_not]
          omega
        simp [spacious, room]
      · have full : device.ring.full = true := by
          rw [RingBuffer.full, decide_eq_true_iff]
          omega
        have some : queue.items ≠ [] := by
          intro empty
          rw [empty, List.length_nil] at room
          exact room (Nat.pos_of_ne_zero represents.usable)
        simp [full, room, List.tail_append_of_ne_nil some]
  · simp [Device.perform, RingBuffer.append_none usable]

theorem Represents.ackThrough (represents : Represents device queue) (seq : UInt64) :
    Represents (device.perform (.ackThrough seq)).1 (queue.acknowledge (RingBuffer.acked seq)) ∧
      (device.perform (.ackThrough seq)).2 =
        .dropped (queue.items.takeWhile (RingBuffer.acked seq)).length := by
  have dropped := device.ring.contents_ackThrough device.storage seq
  rw [← Device.contents, represents.contents] at dropped
  constructor
  · exact ⟨represents.sized, represents.usable, represents.settled.ackThrough seq, dropped⟩
  · have after := length_contents (device.perform (.ackThrough seq)).1
    rw [show (device.perform (.ackThrough seq)).1.contents = _ from dropped] at after
    have before := represents.depth
    have whole := congrArg List.length
      (@List.takeWhile_append_dropWhile _ (RingBuffer.acked seq) queue.items)
    rw [List.length_append] at whole
    have ordered := (device.ring.ackThrough .none device.storage seq).1.ordered
    have removed : (device.ring.ackThrough .none device.storage seq).1.tail - device.ring.tail =
        (queue.items.takeWhile (RingBuffer.acked seq)).length := by
      change _ = device.ring.head - (device.ring.ackThrough .none device.storage seq).1.tail at after
      change _ ≤ device.ring.head at ordered
      simp only [RingBuffer.depth] at before
      omega
    exact congrArg Answer.dropped removed

theorem simulates (slots : Nat) :
    Simulates Device.perform (@Queue.perform slots) Represents := by
  intro device queue request represents
  cases request with
  | append record => exact represents.append record
  | peek max =>
      refine ⟨represents, ?_⟩
      rw [Device.perform, Queue.perform, RingBuffer.peek_eq, ← Device.contents, represents.contents]
  | ackThrough seq => exact represents.ackThrough seq
  | depth => exact ⟨represents, congrArg Answer.depth represents.depth⟩
  | reboot =>
      have same : boot device.storage = device := by
        rw [boot, represents.settled]
      refine ⟨?_, rfl⟩
      rw [Device.perform, same]
      exact represents

/-! ## The last records, from an empty buffer -/

def Request.appended : Request → Option PunchRecord
  | .append record => some record
  | _ => none

/-- The buffer only ever sees sequence numbers that go up. -/
def Increasing (requests : List Request) : Prop :=
  (requests.filterMap Request.appended).Pairwise fun older newer => older.seq < newer.seq

def remember (history : List PunchRecord) : Request → List PunchRecord
  | .append record => history ++ [record.withCrc]
  | .ackThrough seq => history.filter fun record => seq < record.seq
  | _ => history

/-- The appended records that no later acknowledgement covers. -/
def unacknowledged (requests : List Request) : List PunchRecord := requests.foldl remember []

theorem unacknowledged_sublist (requests : List Request) :
    (unacknowledged requests).Sublist
      ((requests.filterMap Request.appended).map PunchRecord.withCrc) := by
  induction requests using List.reverseRecOn with
  | nil => exact .slnil
  | append_singleton requests request ih =>
      rw [unacknowledged, List.foldl_concat, ← unacknowledged, List.filterMap_append, List.map_append]
      cases request with
      | append record => exact ih.append (.refl _)
      | ackThrough seq => exact (List.filter_sublist.trans ih).trans (List.sublist_append_left ..)
      | peek | depth | reboot => exact ih.trans (List.sublist_append_left ..)

theorem intact_of_mem_unacknowledged {requests : List Request} :
    ∀ record ∈ unacknowledged requests, record.intact = true := by
  intro record member
  obtain ⟨original, -, rfl⟩ := List.mem_map.mp ((unacknowledged_sublist requests).subset member)
  exact original.withCrc_intact

theorem acked_eq {seq : UInt64} {record : PunchRecord} (intact : record.intact = true) :
    RingBuffer.acked seq record = !decide (seq < record.seq) := by
  rw [RingBuffer.acked, intact, Bool.true_and]

theorem ordered_of_increasing {requests : List Request} (increasing : Increasing requests)
    (seq : UInt64) :
    (unacknowledged requests).Pairwise fun older newer =>
      RingBuffer.acked seq newer = true → RingBuffer.acked seq older = true := by
  have rising : ((requests.filterMap Request.appended).map PunchRecord.withCrc).Pairwise
      fun older newer => older.seq < newer.seq :=
    List.pairwise_map.mpr increasing
  apply (rising.sublist (unacknowledged_sublist requests)).imp_of_mem
  intro older newer first second less covered
  have reached := RingBuffer.acked_iff.mp covered (intact_of_mem_unacknowledged newer second)
  exact RingBuffer.acked_iff.mpr fun _ => UInt64.le_of_lt (UInt64.lt_of_lt_of_le less reached)

theorem recalls_unacknowledged {requests : List Request} (increasing : Increasing requests)
    (empty : queue.items = []) :
    (served Queue.perform queue requests).Recalls (unacknowledged requests) := by
  induction requests using List.reverseRecOn with
  | nil => simpa [DropOldest.Recalls, served, unacknowledged] using empty
  | append_singleton requests request ih =>
      rw [Increasing, List.filterMap_append] at increasing
      have before : Increasing requests := (List.pairwise_append.mp increasing).1
      have recalls := ih before
      rw [served_concat, unacknowledged, List.foldl_concat, ← unacknowledged]
      cases request with
      | append record => exact recalls.push record.withCrc
      | ackThrough seq =>
          have forgets := recalls.acknowledge (ordered_of_increasing before seq)
          have same : (unacknowledged requests).filter (fun record => !RingBuffer.acked seq record) =
              (unacknowledged requests).filter fun record => decide (seq < record.seq) := by
            refine List.filter_congr fun record member => ?_
            rw [acked_eq (intact_of_mem_unacknowledged record member), Bool.not_not]
          rw [same] at forgets
          exact forgets
      | peek | depth | reboot => exact recalls

/-! ## Any boot, any requests -/

theorem length_contents_le (device : Device) : device.contents.length ≤ device.ring.slots := by
  have bounded := device.ring.bounded
  rw [length_contents, RingBuffer.depth]
  omega

def Device.asQueue (device : Device) : Queue device.ring.slots where
  items := device.contents
  short := length_contents_le device

theorem represents_boot {storage : Storage} (usable : (boot storage).ring.slots ≠ 0) :
    Represents (boot storage) (boot storage).asQueue :=
  ⟨rfl, usable, rfl, rfl⟩

theorem contents_boot_empty {storage : Storage}
    (empty : ∀ saved ∈ storage.cursors, saved.tail = saved.head) : (boot storage).contents = [] := by
  have depth : (RingBuffer.begin .none storage).depth = 0 := by
    unfold RingBuffer.begin
    dsimp only
    split
    next => rfl
    next =>
      cases saved : storage.cursors with
      | none => simp [Faults.none, RingBuffer.clamp, RingBuffer.depth]
      | some pair =>
          have same := empty pair saved
          simp [Faults.none, RingBuffer.clamp, RingBuffer.depth, same]
  exact List.eq_nil_of_length_eq_zero ((length_contents (boot storage)).trans depth)

/-- Whatever cursors it boots with, the ring answers every request as the queue of the
records between them does. -/
theorem ring_refines_queue (storage : Storage) (requests : List Request)
    (capacity : recordBytes ≤ storage.capacityBytes) :
    let booted := boot storage
    let final := served Device.perform booted requests
    let queue := served Queue.perform booted.asQueue requests
    answers Device.perform booted requests = answers Queue.perform booted.asQueue requests ∧
      final.contents = queue.items ∧
      final.ring.tail ≤ final.ring.head ∧
      final.ring.head ≤ final.ring.tail + storage.capacityBytes / recordBytes ∧
      final.ring.depth = final.ring.head - final.ring.tail ∧
      ((∀ saved ∈ storage.cursors, saved.tail = saved.head) → Increasing requests →
        final.contents = (unacknowledged requests).rtake (storage.capacityBytes / recordBytes)) := by
  intro booted final queue
  have slots : booted.ring.slots = storage.capacityBytes / recordBytes :=
    RingBuffer.begin_slots .none storage
  have usable : booted.ring.slots ≠ 0 := by
    rw [slots]
    exact (Nat.div_pos capacity (by decide)).ne'
  have start := represents_boot usable
  have finished := (simulates booted.ring.slots).served requests start
  refine ⟨(simulates booted.ring.slots).answers requests start, finished.contents, final.ring.ordered,
    ?_, rfl, fun empty increasing => ?_⟩
  · rw [← slots, ← finished.sized]
    exact final.ring.bounded
  · rw [← slots]
    exact finished.contents.trans (recalls_unacknowledged increasing (contents_boot_empty empty))

open PowerCut.Terminal (punch)

/-- Room for two records, and an empty pair of cursors far into the count. -/
def emptied : Storage := ⟨120, fun _ => punch 0, some ⟨41, 41⟩⟩

def overflow : List Request :=
  [.append (punch 1), .append (punch 2), .reboot, .ackThrough 1, .append (punch 3), .append (punch 5)]

theorem ring_refines_queue_overflow :
    (served Device.perform (boot emptied) overflow).contents =
      (unacknowledged overflow).rtake 2 ∧
    (unacknowledged overflow).rtake 2 = [(punch 3).withCrc, (punch 5).withCrc] := by
  constructor
  · have increasing : Increasing overflow := by
      change List.Pairwise _ [punch 1, punch 2, punch 3, punch 5]
      decide
    exact (ring_refines_queue emptied overflow (by decide)).2.2.2.2.2 (by simp [emptied]) increasing
  · simp [unacknowledged, overflow, remember, punch, List.rtake]

end RingQueue

end Presence.Firmware
