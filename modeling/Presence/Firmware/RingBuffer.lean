import Presence.Data.Ring
import Presence.Firmware.PunchRecord

namespace Presence.Firmware

open Presence.Data

/-! # The offline punch buffer

`RingBuffer` of `ring_buffer.h` over its `Storage` seam.  An offset is always a
whole number of records, so the data file is a function from record index to
record.  An operation returns the storage calls that took effect, in order: what
a power cut leaves behind is the storage after a prefix of them.  `Faults` says
which calls of one operation report failure instead.
-/

structure Cursors where
  head : Nat
  tail : Nat
deriving DecidableEq, Repr

structure Storage where
  capacityBytes : Nat
  cells : Nat → PunchRecord
  cursors : Option Cursors

inductive StorageCall where
  | writeAt (index : Nat) (record : PunchRecord)
  | saveCursors (cursors : Cursors)

def Storage.perform (storage : Storage) : StorageCall → Storage
  | .writeAt index record => { storage with cells := Function.update storage.cells index record }
  | .saveCursors cursors => { storage with cursors := some cursors }

def Storage.performAll (storage : Storage) (calls : List StorageCall) : Storage :=
  calls.foldl Storage.perform storage

@[simp] theorem Storage.performAll_capacityBytes (storage : Storage) (calls : List StorageCall) :
    (storage.performAll calls).capacityBytes = storage.capacityBytes := by
  simp only [Storage.performAll]
  induction calls generalizing storage with
  | nil => rfl
  | cons call rest ih =>
      rw [List.foldl_cons, ih]
      cases call <;> rfl

structure Faults where
  readAt : Nat → Bool := fun _ => false
  writeAt : Bool := false
  saveCursors : Bool := false
  loadCursors : Bool := false

def Faults.none : Faults := {}

/-- The cursors in RAM.  `begin` clamps whatever NVS returned into the two
bounds and every operation keeps them, so `depth` cannot underflow.  The source
counts in `uint64_t`: an append moves `head` by one and spends a fresh `seq`, so
the counters reach their limit no sooner than `seq` does. -/
structure RingBuffer where
  slots : Nat
  head : Nat
  tail : Nat
  ordered : tail ≤ head
  bounded : head ≤ tail + slots

namespace RingBuffer

def depth (ring : RingBuffer) : Nat := ring.head - ring.tail

def full (ring : RingBuffer) : Bool := decide (ring.slots ≤ ring.depth)

def cursors (ring : RingBuffer) : Cursors := ⟨ring.head, ring.tail⟩

def unusable : RingBuffer := ⟨0, 0, 0, by omega, by omega⟩

def clamp (slots : Nat) (saved : Cursors) : RingBuffer :=
  let tail := if saved.tail > saved.head then saved.head else saved.tail
  have below : tail ≤ saved.head := by dsimp only [tail]; split <;> omega
  if wide : saved.head - tail > slots then
    ⟨slots, saved.head, saved.head - slots, by omega, by omega⟩
  else
    ⟨slots, saved.head, tail, below, by omega⟩

/-- `begin`; the source reports success exactly when the result has slots. -/
def begin (faults : Faults) (storage : Storage) : RingBuffer :=
  let slots := storage.capacityBytes / recordBytes
  if slots = 0 then unusable
  else if faults.loadCursors then clamp slots ⟨0, 0⟩
  else clamp slots (storage.cursors.getD ⟨0, 0⟩)

def makeRoom (ring : RingBuffer) (usable : ring.slots ≠ 0) : RingBuffer :=
  if full : ring.slots ≤ ring.depth then
    { ring with
      tail := ring.tail + 1
      ordered := by unfold depth at full; omega
      bounded := by have := ring.bounded; omega }
  else ring

@[simp] theorem makeRoom_head (ring : RingBuffer) (usable : ring.slots ≠ 0) :
    (ring.makeRoom usable).head = ring.head := by
  simp only [makeRoom]
  split <;> rfl

@[simp] theorem makeRoom_slots (ring : RingBuffer) (usable : ring.slots ≠ 0) :
    (ring.makeRoom usable).slots = ring.slots := by
  simp only [makeRoom]
  split <;> rfl

theorem makeRoom_room (ring : RingBuffer) (usable : ring.slots ≠ 0) :
    (ring.makeRoom usable).head + 1 ≤ (ring.makeRoom usable).tail + (ring.makeRoom usable).slots := by
  have bounded := ring.bounded
  rw [makeRoom_head, makeRoom_slots]
  simp only [makeRoom]
  split
  · simp only; omega
  · simp only [depth] at *; omega

def advance (ring : RingBuffer) (room : ring.head + 1 ≤ ring.tail + ring.slots) : RingBuffer :=
  { ring with
    head := ring.head + 1
    ordered := by have := ring.ordered; omega
    bounded := room }

/-- `append`: the cursors after it, its storage calls and what it returned. -/
def append (faults : Faults) (ring : RingBuffer) (record : PunchRecord) :
    RingBuffer × List StorageCall × Bool :=
  if usable : ring.slots ≠ 0 then
    -- the eviction stays in RAM when the write below fails
    let roomy := ring.makeRoom usable
    let written := StorageCall.writeAt (roomy.head % roomy.slots) record.withCrc
    if faults.writeAt then (roomy, [], false)
    else
      let next := roomy.advance (ring.makeRoom_room usable)
      if faults.saveCursors then (next, [written], false)
      else (next, [written, .saveCursors next.cursors], true)
  else (ring, [], false)

def peekFrom (faults : Faults) (storage : Storage) (slots : Nat) :
    (left position max : Nat) → List PunchRecord
  | 0, _, _ => []
  | _ + 1, _, 0 => []
  | left + 1, position, max + 1 =>
      let record := Ring.read slots storage.cells position
      if faults.readAt position then peekFrom faults storage slots left (position + 1) (max + 1)
      else if record.intact then
        record :: peekFrom faults storage slots left (position + 1) max
      else peekFrom faults storage slots left (position + 1) (max + 1)

def peek (faults : Faults) (ring : RingBuffer) (storage : Storage) (max : Nat) :
    List PunchRecord :=
  peekFrom faults storage ring.slots ring.depth ring.tail max

def dropCount (faults : Faults) (storage : Storage) (slots : Nat) (seq : UInt64) :
    (left position : Nat) → Nat
  | 0, _ => 0
  | left + 1, position =>
      let record := Ring.read slots storage.cells position
      if faults.readAt position then 0
      else if record.intact && decide (seq < record.seq) then 0
      else dropCount faults storage slots seq left (position + 1) + 1

theorem dropCount_le (faults : Faults) (storage : Storage) (slots : Nat) (seq : UInt64)
    (left position : Nat) : dropCount faults storage slots seq left position ≤ left := by
  induction left generalizing position with
  | zero => simp [dropCount]
  | succ left ih =>
      simp only [dropCount]
      split
      · omega
      · split
        · omega
        · exact Nat.succ_le_succ (ih (position + 1))

/-- `ackThrough`: the cursors after it and its storage calls.  The result of
`saveCursors` is ignored, so a failed save only leaves the old pair in NVS. -/
def ackThrough (faults : Faults) (ring : RingBuffer) (storage : Storage) (seq : UInt64) :
    RingBuffer × List StorageCall :=
  let dropped := dropCount faults storage ring.slots seq ring.depth ring.tail
  have within : dropped ≤ ring.depth := dropCount_le ..
  let next : RingBuffer :=
    { ring with
      tail := ring.tail + dropped
      ordered := by have := ring.ordered; unfold depth at within; omega
      bounded := by have := ring.bounded; omega }
  (next, if faults.saveCursors then [] else [.saveCursors next.cursors])

/-! ## What the operations do to the queue -/

def contents (ring : RingBuffer) (storage : Storage) : List PunchRecord :=
  Ring.window ring.slots storage.cells ring.tail ring.head

variable {ring : RingBuffer} {storage : Storage}

theorem peekFrom_eq (storage : Storage) (slots left position max : Nat) :
    peekFrom .none storage slots left position max =
      ((Ring.window slots storage.cells position (position + left)).filter
        PunchRecord.intact).take max := by
  induction left generalizing position max with
  | zero => simp [peekFrom]
  | succ left ih =>
      rw [Ring.window_cons (by omega), show position + (left + 1) = position + 1 + left by omega]
      cases max with
      | zero => simp [peekFrom]
      | succ max =>
          cases intact : (Ring.read slots storage.cells position).intact <;>
            simp [peekFrom, Faults.none, intact, ← ih]

/-- `peek` returns the oldest `max` records that pass the checksum. -/
theorem peek_eq (ring : RingBuffer) (storage : Storage) (max : Nat) :
    ring.peek .none storage max =
      ((ring.contents storage).filter PunchRecord.intact).take max := by
  have reach : ring.tail + ring.depth = ring.head := Nat.add_sub_cancel' ring.ordered
  rw [peek, peekFrom_eq, reach]
  rfl

def acked (seq : UInt64) (record : PunchRecord) : Bool :=
  !(record.intact && decide (seq < record.seq))

theorem acked_iff {seq : UInt64} {record : PunchRecord} :
    acked seq record = true ↔ (record.intact = true → record.seq ≤ seq) := by
  cases intact : record.intact <;> simp [acked, intact, UInt64.not_lt]

theorem window_dropCount (storage : Storage) (slots : Nat) (seq : UInt64) (left position : Nat) :
    Ring.window slots storage.cells
        (position + dropCount .none storage slots seq left position) (position + left) =
      (Ring.window slots storage.cells position (position + left)).dropWhile (acked seq) := by
  induction left generalizing position with
  | zero => simp [dropCount]
  | succ left ih =>
      have first : Ring.window slots storage.cells position (position + (left + 1)) =
          Ring.read slots storage.cells position ::
            Ring.window slots storage.cells (position + 1) (position + 1 + left) := by
        rw [Ring.window_cons (by omega), show position + (left + 1) = position + 1 + left by omega]
      cases kept : (Ring.read slots storage.cells position).intact &&
          decide (seq < (Ring.read slots storage.cells position).seq) with
      | true =>
          rw [first, List.dropWhile_cons_of_neg (by simp [acked, kept]), ← first]
          simp only [dropCount, Faults.none, kept, Bool.false_eq_true, ↓reduceIte, Nat.add_zero]
      | false =>
          rw [first, List.dropWhile_cons_of_pos (by simp [acked, kept]), ← ih]
          simp only [dropCount, Faults.none, kept, Bool.false_eq_true, ↓reduceIte]
          congr 1 <;> omega

theorem contents_ackThrough (ring : RingBuffer) (storage : Storage) (seq : UInt64) :
    (ring.ackThrough .none storage seq).1.contents
        (storage.performAll (ring.ackThrough .none storage seq).2) =
      (ring.contents storage).dropWhile (acked seq) := by
  have dropped := window_dropCount storage ring.slots seq ring.depth ring.tail
  rw [show ring.tail + ring.depth = ring.head from Nat.add_sub_cancel' ring.ordered] at dropped
  exact dropped

theorem append_none (usable : ring.slots ≠ 0) (record : PunchRecord) :
    ring.append .none record =
      ((ring.makeRoom usable).advance (ring.makeRoom_room usable),
        [.writeAt (ring.head % ring.slots) record.withCrc,
          .saveCursors ((ring.makeRoom usable).advance (ring.makeRoom_room usable)).cursors],
        true) := by
  simp [append, usable, Faults.none]

theorem contents_makeRoom (usable : ring.slots ≠ 0) :
    (ring.makeRoom usable).contents storage =
      if ring.full then (ring.contents storage).tail else ring.contents storage := by
  by_cases full : ring.slots ≤ ring.depth
  · have pending : ring.tail < ring.head := by unfold depth at full; omega
    simp only [makeRoom, RingBuffer.full, full, decide_true, ↓reduceIte, ↓reduceDIte, contents]
    rw [Ring.window_cons pending, List.tail_cons]
  · simp [makeRoom, RingBuffer.full, full]

theorem contents_written (usable : ring.slots ≠ 0) (record : PunchRecord) (storage : Storage) :
    ((ring.makeRoom usable).advance (ring.makeRoom_room usable)).contents
        (storage.performAll [.writeAt (ring.head % ring.slots) record.withCrc]) =
      (ring.makeRoom usable).contents storage ++ [record.withCrc] := by
  have room := Nat.lt_of_succ_le (ring.makeRoom_room usable)
  have pushed := Ring.window_push storage.cells record.withCrc (ring.makeRoom usable).ordered room
  rw [makeRoom_head, makeRoom_slots] at pushed
  simpa [contents, advance, Storage.performAll, Storage.perform, Ring.write] using pushed

/-- `append` evicts the oldest record of a full queue and adds the new one. -/
theorem contents_append (usable : ring.slots ≠ 0) (record : PunchRecord) :
    (ring.append .none record).1.contents
        (storage.performAll (ring.append .none record).2.1) =
      (if ring.full then (ring.contents storage).tail else ring.contents storage) ++
        [record.withCrc] := by
  rw [append_none usable, ← contents_makeRoom usable]
  -- saving the cursors moves no record
  exact contents_written usable record storage

/-! ## Rebooting -/

@[simp] theorem clamp_cursors (ring : RingBuffer) : clamp ring.slots ring.cursors = ring := by
  have ordered := ring.ordered
  have bounded := ring.bounded
  have keep : ¬ ring.tail > ring.head := by omega
  have narrow : ¬ ring.head - ring.tail > ring.slots := by omega
  simp [clamp, cursors, keep, narrow]

@[simp] theorem clamp_slots (slots : Nat) (saved : Cursors) : (clamp slots saved).slots = slots := by
  unfold clamp
  extract_lets tail below
  split <;> rfl

theorem begin_slots (faults : Faults) (storage : Storage) :
    (begin faults storage).slots = storage.capacityBytes / recordBytes := by
  unfold begin
  simp only
  split
  · rename_i zero
    exact zero.symm
  · split <;> exact clamp_slots ..

/-- The cursors in RAM are the ones a reboot would come back with. -/
def Settled (ring : RingBuffer) (storage : Storage) : Prop :=
  begin .none storage = ring

theorem Settled.slots (settled : Settled ring storage) :
    ring.slots = storage.capacityBytes / recordBytes := by
  rw [← settled, begin_slots]

theorem begin_of_saved (same : ring.slots = storage.capacityBytes / recordBytes)
    (usable : ring.slots ≠ 0) (saved : storage.cursors = some ring.cursors) :
    Settled ring storage := by
  have clamped := ring.clamp_cursors
  rw [same] at usable clamped
  simp [Settled, begin, usable, Faults.none, saved, clamped]

theorem Settled.append (settled : Settled ring storage) (record : PunchRecord) :
    Settled (ring.append .none record).1
      (storage.performAll (ring.append .none record).2.1) := by
  by_cases usable : ring.slots ≠ 0
  · rw [append_none usable]
    apply begin_of_saved
    · simpa [advance] using settled.slots
    · simpa [advance] using usable
    · rfl
  · simpa [RingBuffer.append, usable, Storage.performAll] using settled

theorem Settled.ackThrough (settled : Settled ring storage) (seq : UInt64) :
    Settled (ring.ackThrough .none storage seq).1
      (storage.performAll (ring.ackThrough .none storage seq).2) := by
  by_cases usable : ring.slots = 0
  · -- no slots: `begin` ignores the saved pair and comes back empty
    have none : storage.capacityBytes / recordBytes = 0 := by rw [← settled.slots, usable]
    have empty : ring = unusable := by rw [← settled]; simp [begin, none]
    subst empty
    simp [Settled, begin, RingBuffer.ackThrough, Storage.performAll, Storage.perform, none,
      Faults.none, unusable, depth, dropCount]
  · exact begin_of_saved settled.slots usable rfl

end RingBuffer

end Presence.Firmware
