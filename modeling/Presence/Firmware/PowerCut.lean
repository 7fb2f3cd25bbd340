import Mathlib.Data.List.TakeWhile
import Presence.Data.Run
import Presence.Firmware.RingBuffer

namespace Presence.Firmware.PowerCut

open Presence.Data

/-! # Power cuts between storage calls

A terminal runs `append` and `ackThrough`; power may go between any two storage
calls of an operation, and every cut is followed by a reboot through `begin`.
`cut action performed` is that operation stopped after its first `performed`
calls.  A cut outside any operation is a cut before its first call.
-/

inductive Action where
  | append (record : PunchRecord)
  | ackThrough (seq : UInt64)

inductive Event where
  | complete (action : Action)
  | cut (action : Action) (performed : Nat)

structure Terminal where
  storage : Storage
  ring : RingBuffer
  /-- Every sequence number handed to `append` so far is below this. -/
  nextSeq : Nat

namespace Terminal

def boot (storage : Storage) (nextSeq : Nat) : Terminal :=
  { storage, ring := .begin .none storage, nextSeq }

/-- A new terminal: nothing in NVS yet, anything in the data file. -/
def fresh (capacityBytes : Nat) (cells : Nat → PunchRecord) : Terminal :=
  boot { capacityBytes, cells, cursors := none } 0

def perform (terminal : Terminal) : Action → RingBuffer × List StorageCall
  | .append record =>
      let (ring, calls, _) := terminal.ring.append .none record
      (ring, calls)
  | .ackThrough seq => terminal.ring.ackThrough .none terminal.storage seq

/-- `append` is only given a sequence number above all earlier ones. -/
def admits (terminal : Terminal) : Action → Bool
  | .append record => decide (terminal.nextSeq ≤ record.seq.toNat)
  | .ackThrough _ => true

def spend (terminal : Terminal) : Action → Nat
  | .append record => record.seq.toNat + 1
  | .ackThrough _ => terminal.nextSeq

def step (terminal : Terminal) : Event → Option Terminal
  | .complete action =>
      if terminal.admits action then
        let (ring, calls) := terminal.perform action
        some { storage := terminal.storage.performAll calls, ring, nextSeq := terminal.spend action }
      else none
  | .cut action performed =>
      if terminal.admits action then
        let (_, calls) := terminal.perform action
        some (boot (terminal.storage.performAll (calls.take performed)) (terminal.spend action))
      else none

def contents (terminal : Terminal) : List PunchRecord :=
  terminal.ring.contents terminal.storage

/-! ## The two promises -/

/-- The intact records between tail and head have strictly increasing `seq`. -/
def Ordered (terminal : Terminal) : Prop :=
  (terminal.contents.filter PunchRecord.intact).Pairwise fun older newer => older.seq < newer.seq

/-- Acknowledging the largest `seq` of a peeked batch drops, of the intact
records, only ones in that batch. -/
def AckSafe (terminal : Terminal) : Prop :=
  ∀ max largest, let batch := terminal.ring.peek .none terminal.storage max
    largest ∈ batch → (∀ record ∈ batch, record.seq ≤ largest.seq) →
    let acked := terminal.ring.ackThrough .none terminal.storage largest.seq
    ∃ dropped, terminal.contents =
        dropped ++ acked.1.contents (terminal.storage.performAll acked.2) ∧
      ∀ record ∈ dropped, record.intact = true → record ∈ batch

/-- No cut between the record write and the cursor write of an `append` that
evicts, on a ring that holds more than one record. -/
def SparesFullRing (terminal : Terminal) : Event → Prop
  | .cut (.append _) performed =>
      performed = 1 → terminal.ring.full = true → terminal.ring.slots ≤ 1
  | _ => True

structure Sound (terminal : Terminal) : Prop where
  settled : terminal.ring.Settled terminal.storage
  intact : ∀ record ∈ terminal.contents, record.intact = true
  sorted : terminal.contents.Pairwise fun older newer => older.seq < newer.seq
  below : ∀ record ∈ terminal.contents, record.seq.toNat < terminal.nextSeq

variable {terminal next : Terminal}

theorem Sound.ordered (sound : terminal.Sound) : terminal.Ordered :=
  sound.sorted.filter _

theorem mem_take_of_le {records : List PunchRecord} {max : Nat}
    {record largest : PunchRecord}
    (sorted : records.Pairwise fun older newer => older.seq < newer.seq)
    (member : record ∈ records) (taken : largest ∈ records.take max)
    (le : record.seq ≤ largest.seq) : record ∈ records.take max := by
  rw [← List.take_append_drop max records, List.mem_append] at member
  rcases member with early | late
  · exact early
  · rw [← List.take_append_drop max records] at sorted
    have before := (List.pairwise_append.mp sorted).2.2 largest taken record late
    exact absurd before (UInt64.not_lt.mpr le)

theorem Ordered.ackSafe (ordered : terminal.Ordered) : terminal.AckSafe := by
  intro max largest batch taken _ acked
  refine ⟨terminal.contents.takeWhile (RingBuffer.acked largest.seq), ?_, ?_⟩
  · rw [RingBuffer.contents_ackThrough]
    exact List.takeWhile_append_dropWhile.symm
  · intro record dropped intact
    have member : record ∈ terminal.contents.filter PunchRecord.intact :=
      List.mem_filter.mpr ⟨(List.takeWhile_sublist _).subset dropped, intact⟩
    have le : record.seq ≤ largest.seq :=
      RingBuffer.acked_iff.mp (List.mem_takeWhile_imp dropped) intact
    have peeked : batch = (terminal.contents.filter PunchRecord.intact).take max :=
      RingBuffer.peek_eq ..
    rw [peeked] at taken ⊢
    exact mem_take_of_le ordered member taken le

/-! ## Every step keeps `Sound` -/

theorem boot_of_settled {ring : RingBuffer} {storage : Storage} (nextSeq : Nat)
    (settled : ring.Settled storage) : boot storage nextSeq = ⟨storage, ring, nextSeq⟩ := by
  rw [boot, settled]

theorem Sound.sublist (sound : terminal.Sound) (settled : next.ring.Settled next.storage)
    (kept : next.contents.Sublist terminal.contents) (later : terminal.nextSeq ≤ next.nextSeq) :
    next.Sound where
  settled := settled
  intact := fun record member => sound.intact record (kept.subset member)
  sorted := sound.sorted.sublist kept
  below := fun record member => Nat.lt_of_lt_of_le (sound.below record (kept.subset member)) later

theorem Sound.push {record : PunchRecord} {kept : List PunchRecord}
    (sound : terminal.Sound) (settled : next.ring.Settled next.storage)
    (pushed : next.contents = kept ++ [record.withCrc]) (sub : kept.Sublist terminal.contents)
    (admitted : terminal.nextSeq ≤ record.seq.toNat)
    (spent : next.nextSeq = record.seq.toNat + 1) : next.Sound := by
  have older : ∀ earlier ∈ kept, earlier.seq.toNat < record.seq.toNat := fun earlier member =>
    Nat.lt_of_lt_of_le (sound.below earlier (sub.subset member)) admitted
  refine ⟨settled, ?_, ?_, ?_⟩
  · intro earlier member
    rw [pushed, List.mem_append, List.mem_singleton] at member
    rcases member with member | rfl
    · exact sound.intact earlier (sub.subset member)
    · exact record.withCrc_intact
  · rw [pushed, List.pairwise_append]
    refine ⟨sound.sorted.sublist sub, List.pairwise_singleton .., ?_⟩
    intro earlier member newest last
    rw [List.mem_singleton.mp last]
    exact UInt64.lt_iff_toNat_lt.mpr (older earlier member)
  · intro earlier member
    rw [pushed, List.mem_append, List.mem_singleton] at member
    rw [spent]
    rcases member with member | rfl
    · exact Nat.lt_succ_of_lt (older earlier member)
    · exact Nat.lt_succ_self _

theorem Sound.append (sound : terminal.Sound) {record : PunchRecord}
    (admitted : terminal.nextSeq ≤ record.seq.toNat) :
    Sound ⟨terminal.storage.performAll (terminal.ring.append .none record).2.1,
      (terminal.ring.append .none record).1, record.seq.toNat + 1⟩ := by
  by_cases usable : terminal.ring.slots ≠ 0
  · refine sound.push (sound.settled.append record)
      (RingBuffer.contents_append usable record) ?_ admitted rfl
    split
    · exact List.tail_sublist _
    · exact List.Sublist.refl _
  · have idle : terminal.ring.append .none record = (terminal.ring, [], false) := by
      simp [RingBuffer.append, usable]
    rw [idle]
    exact sound.sublist sound.settled (List.Sublist.refl _) (Nat.le_succ_of_le admitted)

theorem Sound.ackThrough (sound : terminal.Sound) (seq : UInt64) :
    Sound ⟨terminal.storage.performAll (terminal.ring.ackThrough .none terminal.storage seq).2,
      (terminal.ring.ackThrough .none terminal.storage seq).1, terminal.nextSeq⟩ := by
  refine sound.sublist (sound.settled.ackThrough seq) ?_ (Nat.le_refl _)
  rw [contents, RingBuffer.contents_ackThrough]
  exact List.dropWhile_sublist _

/-- The written record is still outside tail..head, unless the ring was full. -/
theorem contents_written (record : PunchRecord) (usable : terminal.ring.slots ≠ 0)
    (spares : terminal.ring.full = true → terminal.ring.slots ≤ 1) :
    let written := terminal.storage.performAll
      [.writeAt (terminal.ring.head % terminal.ring.slots) record.withCrc]
    terminal.ring.contents written = terminal.contents ∨
      terminal.ring.contents written = [record.withCrc] := by
  have ordered := terminal.ring.ordered
  have bounded := terminal.ring.bounded
  by_cases full : terminal.ring.slots ≤ terminal.ring.depth
  · -- one slot: the overwritten record was the whole queue
    have single : terminal.ring.slots = 1 := by
      have := spares (by simpa [RingBuffer.full] using full)
      omega
    have next : terminal.ring.head = terminal.ring.tail + 1 := by
      simp only [RingBuffer.depth] at full
      omega
    apply Or.inr
    simp only [RingBuffer.contents]
    rw [single, next, Ring.window_cons (Nat.lt_succ_self _), Ring.window_self]
    simp [Ring.read, Nat.mod_one, Storage.performAll, Storage.perform]
  · have near : terminal.ring.head < terminal.ring.tail + terminal.ring.slots := by
      simp only [RingBuffer.depth] at full
      omega
    exact Or.inl (Ring.window_write terminal.storage.cells record.withCrc near)

theorem Sound.cut_after_write (sound : terminal.Sound) {record : PunchRecord}
    (usable : terminal.ring.slots ≠ 0) (admitted : terminal.nextSeq ≤ record.seq.toNat)
    (spares : terminal.ring.full = true → terminal.ring.slots ≤ 1) :
    Sound (boot (terminal.storage.performAll
      [.writeAt (terminal.ring.head % terminal.ring.slots) record.withCrc])
      (record.seq.toNat + 1)) := by
  have settled : terminal.ring.Settled (terminal.storage.performAll
      [.writeAt (terminal.ring.head % terminal.ring.slots) record.withCrc]) := sound.settled
  rw [boot_of_settled _ settled]
  rcases contents_written record usable spares with same | replaced
  · refine sound.sublist settled ?_ (Nat.le_succ_of_le admitted)
    rw [contents, same]
  · have pushed : terminal.ring.contents (terminal.storage.performAll
        [.writeAt (terminal.ring.head % terminal.ring.slots) record.withCrc]) =
        [] ++ [record.withCrc] := replaced
    exact sound.push settled pushed (List.nil_sublist _) admitted rfl

theorem Sound.cut_append (sound : terminal.Sound) {record : PunchRecord} {performed : Nat}
    (admitted : terminal.nextSeq ≤ record.seq.toNat)
    (spares : performed = 1 → terminal.ring.full = true → terminal.ring.slots ≤ 1) :
    Sound (boot (terminal.storage.performAll
      ((terminal.ring.append .none record).2.1.take performed)) (record.seq.toNat + 1)) := by
  have untouched : Sound (boot terminal.storage (record.seq.toNat + 1)) := by
    rw [boot_of_settled _ sound.settled]
    exact sound.sublist sound.settled (List.Sublist.refl _) (Nat.le_succ_of_le admitted)
  by_cases usable : terminal.ring.slots ≠ 0
  · have complete := sound.append admitted
    rw [← boot_of_settled _ complete.settled] at complete
    rw [RingBuffer.append_none usable] at complete ⊢
    match performed with
    | 0 => exact untouched
    | 1 => exact sound.cut_after_write usable admitted (spares rfl)
    | more + 2 => simpa using complete
  · simpa [RingBuffer.append, usable, Storage.performAll] using untouched

theorem Sound.cut_ackThrough (sound : terminal.Sound) (seq : UInt64) (performed : Nat) :
    Sound (boot (terminal.storage.performAll
      ((terminal.ring.ackThrough .none terminal.storage seq).2.take performed))
      terminal.nextSeq) := by
  cases performed with
  | zero =>
      change Sound (boot terminal.storage terminal.nextSeq)
      rw [boot_of_settled _ sound.settled]
      exact sound
  | succ more =>
      have complete := sound.ackThrough seq
      rw [← boot_of_settled _ complete.settled] at complete
      simpa [RingBuffer.ackThrough, Faults.none] using complete

theorem Sound.step {event : Event} (sound : terminal.Sound)
    (spares : terminal.SparesFullRing event) (taken : terminal.step event = some next) :
    next.Sound := by
  cases event with
  | complete action =>
      simp only [Terminal.step, Option.ite_none_right_eq_some, Option.some.injEq] at taken
      obtain ⟨admitted, rfl⟩ := taken
      cases action with
      | append record => exact sound.append (of_decide_eq_true admitted)
      | ackThrough seq => exact sound.ackThrough seq
  | cut action performed =>
      simp only [Terminal.step, Option.ite_none_right_eq_some, Option.some.injEq] at taken
      obtain ⟨admitted, rfl⟩ := taken
      cases action with
      | append record => exact sound.cut_append (of_decide_eq_true admitted) spares
      | ackThrough seq => exact sound.cut_ackThrough seq performed

theorem sound_fresh (capacityBytes : Nat) (cells : Nat → PunchRecord) :
    (fresh capacityBytes cells).Sound := by
  have empty : (fresh capacityBytes cells).contents = [] := by
    by_cases usable : capacityBytes / recordBytes = 0 <;>
      simp [fresh, boot, contents, RingBuffer.begin, usable, RingBuffer.contents, Faults.none,
        RingBuffer.unusable, RingBuffer.clamp]
  exact ⟨rfl, by simp [empty], by simp [empty], by simp [empty]⟩

/-- In every run whose cuts spare a full ring, the queue stays ordered and
acknowledging a peeked batch drops nothing else. -/
theorem ordered_and_ackSafe_of_spared (capacityBytes : Nat) (cells : Nat → PunchRecord)
    (events : List Event) (terminal : Terminal)
    (spared : Along step SparesFullRing (fresh capacityBytes cells) events)
    (ran : run step (fresh capacityBytes cells) events = some terminal) :
    terminal.Ordered ∧ terminal.AckSafe := by
  have sound : terminal.Sound :=
    spared.invariant (fun _ _ _ sound spares taken => sound.step spares taken)
      (sound_fresh capacityBytes cells) ran
  exact ⟨sound.ordered, sound.ordered.ackSafe⟩

/-! A ring of two records, both taken, and power lost after the third record
went into the slot of the first: the oldest position now holds the newest
punch, and acknowledging it gives up the one behind it. -/

def punch (seq : UInt64) : PunchRecord where
  seq := seq
  capturedEpochMs := 0
  capturedUptimeMs := 0
  uuid := .replicate 16 0
  slotNo := 1
  matchScore := 0
  credentialKind := 0
  timeSource := 0
  directionHint := 0
  reserved := .replicate 9 0
  crc := 0

def fullRingCut : List Event :=
  [.complete (.append (punch 1)), .complete (.append (punch 2)), .cut (.append (punch 3)) 1]

theorem contents_fullRingCut :
    ∃ terminal, run step (fresh 120 fun _ => punch 0) fullRingCut = some terminal ∧
      terminal.contents = [(punch 3).withCrc, (punch 2).withCrc] :=
  ⟨_, rfl, rfl⟩

theorem fullRingCut_not_ordered_nor_ackSafe :
    ∃ terminal, run step (fresh 120 fun _ => punch 0) fullRingCut = some terminal ∧
      ¬ terminal.Ordered ∧ ¬ terminal.AckSafe := by
  obtain ⟨terminal, ran, held⟩ := contents_fullRingCut
  refine ⟨terminal, ran, ?_, ?_⟩
  · intro ordered
    rw [Ordered, held] at ordered
    revert ordered
    simp [punch]
  · intro safe
    have peeked : terminal.ring.peek .none terminal.storage 1 = [(punch 3).withCrc] := by
      rw [RingBuffer.peek_eq, ← contents, held]
      simp
    obtain ⟨dropped, split, only⟩ := safe 1 (punch 3).withCrc (by simp [peeked]) (by simp [peeked])
    rw [RingBuffer.contents_ackThrough, ← contents, held] at split
    have everything : dropped = [(punch 3).withCrc, (punch 2).withCrc] := by
      simpa [RingBuffer.acked, punch] using split.symm
    have kept := only (punch 2).withCrc (by simp [everything]) (by simp)
    rw [peeked, List.mem_singleton] at kept
    exact absurd (congrArg PunchRecord.seq kept) (by decide)

def sparedCut : List Event :=
  [.complete (.append (punch 1)), .cut (.append (punch 2)) 1, .complete (.append (punch 3))]

theorem ordered_and_ackSafe_of_sparedCut :
    ∃ terminal, run step (fresh 120 fun _ => punch 0) sparedCut = some terminal ∧
      terminal.Ordered ∧ terminal.AckSafe := by
  have spared : Along step SparesFullRing (fresh 120 fun _ => punch 0) sparedCut := by
    refine ⟨trivial, fun next taken => ⟨fun _ full => ?_, fun _ _ => ⟨trivial, fun _ _ => trivial⟩⟩⟩
    -- one record in a ring of two: the cut append does not evict
    cases taken
    exact absurd full (by decide)
  exact ⟨_, rfl, ordered_and_ackSafe_of_spared 120 (fun _ => punch 0) sparedCut _ spared rfl⟩

end Terminal

end Presence.Firmware.PowerCut
