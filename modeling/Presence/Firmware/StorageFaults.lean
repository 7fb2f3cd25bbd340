import Presence.Firmware.PowerCut

namespace Presence.Firmware

open Presence.Data

/-! # Storage that fails and says so

A write or a cursor save that fails leaves what was stored before; a read that fails
returns nothing.  Each call fails or succeeds on its own.
-/

namespace RingBuffer

variable {faults : Faults} {ring other : RingBuffer} {storage left : Storage} {record : PunchRecord}

/-! ## Failed appends -/

/-- The same depth, and the same batch from every `peek`. -/
def LooksLike (ring : RingBuffer) (storage : Storage) (other : RingBuffer) (left : Storage) : Prop :=
  ring.depth = other.depth ∧ ∀ max, ring.peek .none storage max = other.peek .none left max

/-- The append shows neither in RAM nor after a reboot. -/
def Unchanged (faults : Faults) (ring : RingBuffer) (storage : Storage) (record : PunchRecord) : Prop :=
  let (after, calls, _) := ring.append faults record
  let left := storage.performAll calls
  LooksLike after left ring storage ∧ LooksLike (begin .none left) left (begin .none storage) storage

/-- No slots, or a failed write to a ring with room, or the only record there is written
over itself. -/
def Harmless (faults : Faults) (ring : RingBuffer) (storage : Storage) (record : PunchRecord) : Prop :=
  ring.slots = 0 ∨ faults.writeAt = true ∧ ring.full = false ∨
    faults.writeAt = false ∧ ring.full = true ∧ (ring.contents storage).head? = some record.withCrc ∧
      ∀ other ∈ ring.contents storage, other.intact = true → other = record.withCrc

theorem LooksLike.refl (ring : RingBuffer) (storage : Storage) : LooksLike ring storage ring storage :=
  ⟨rfl, fun _ => rfl⟩

theorem LooksLike.intact (same : LooksLike ring storage other left) :
    (ring.contents storage).filter PunchRecord.intact =
      (other.contents left).filter PunchRecord.intact := by
  refine List.ext_getElem? fun index => ?_
  have taken := same.2 (index + 1)
  rw [peek_eq, peek_eq] at taken
  have found := congrArg (·[index]?) taken
  simpa [List.getElem?_take] using found

theorem cons_eq_concat_iff {first last : PunchRecord} {records : List PunchRecord} :
    first :: records = records ++ [last] ↔ first = last ∧ ∀ record ∈ records, record = last := by
  induction records generalizing first with
  | nil => simp
  | cons second records ih =>
      rw [List.cons_append, List.cons.injEq, ih, List.forall_mem_cons]
      constructor
      · rintro ⟨rfl, rfl, rest⟩
        exact ⟨rfl, rfl, rest⟩
      · rintro ⟨rfl, rfl, rest⟩
        exact ⟨rfl, rfl, rest⟩

theorem append_writeFailed (usable : ring.slots ≠ 0) (failed : faults.writeAt = true) :
    ring.append faults record = (ring.makeRoom usable, [], false) := by
  simp [append, usable, failed]

theorem append_saveFailed (usable : ring.slots ≠ 0) (written : faults.writeAt = false)
    (failed : faults.saveCursors = true) :
    ring.append faults record =
      ((ring.makeRoom usable).advance (ring.makeRoom_room usable),
        [.writeAt (ring.head % ring.slots) record.withCrc], false) := by
  simp [append, usable, written, failed]

theorem failed_cases (usable : ring.slots ≠ 0) (failed : (ring.append faults record).2.2 = false) :
    faults.writeAt = true ∨ faults.writeAt = false ∧ faults.saveCursors = true := by
  cases write : faults.writeAt with
  | true => exact .inl rfl
  | false =>
      cases save : faults.saveCursors with
      | true => exact .inr ⟨rfl, rfl⟩
      | false => simp [append, usable, write, save] at failed

theorem makeRoom_of_room (usable : ring.slots ≠ 0) (room : ring.full = false) :
    ring.makeRoom usable = ring := by
  rw [full, decide_eq_false_iff_not] at room
  simp [makeRoom, room]

theorem depth_makeRoom_full (usable : ring.slots ≠ 0) (full : ring.full = true) :
    (ring.makeRoom usable).depth + 1 = ring.depth := by
  rw [RingBuffer.full, decide_eq_true_iff] at full
  rw [makeRoom, dif_pos full]
  unfold depth at *
  dsimp only
  omega

theorem depth_advance (room : ring.head + 1 ≤ ring.tail + ring.slots) :
    (ring.advance room).depth = ring.depth + 1 := by
  have ordered := ring.ordered
  simp only [advance, depth]
  omega

/-- A failed write shows when the ring had to make room for it. -/
theorem unchanged_iff_of_writeFailed (usable : ring.slots ≠ 0) (failed : faults.writeAt = true) :
    Unchanged faults ring storage record ↔ ring.full = false := by
  simp only [Unchanged]
  rw [append_writeFailed usable failed]
  dsimp only [Storage.performAll, List.foldl_nil]
  constructor
  · rintro ⟨⟨same, -⟩, -⟩
    cases full : ring.full with
    | false => rfl
    | true =>
        have shrunk := depth_makeRoom_full usable full
        omega
  · intro room
    rw [makeRoom_of_room usable room]
    exact ⟨.refl .., .refl ..⟩

/-- The cells after the write, in the cell of the oldest record when the ring is full. -/
theorem head_contents_full (usable : ring.slots ≠ 0) (full : ring.full = true) :
    ring.contents storage =
      storage.cells (ring.head % ring.slots) :: (ring.makeRoom usable).contents storage := by
  rw [RingBuffer.full, decide_eq_true_iff] at full
  have bounded := ring.bounded
  have pending : ring.tail < ring.head := by unfold depth at full; omega
  have lap : ring.head = ring.tail + ring.slots := by unfold depth at full; omega
  simp only [makeRoom, full, dif_pos, contents]
  rw [Ring.window_cons pending, Ring.read, lap, Nat.add_mod_right]

theorem performAll_writeAt_self {index : Nat} (same : storage.cells index = record) :
    storage.performAll [.writeAt index record] = storage := by
  have cells : Function.update storage.cells index record = storage.cells := by
    rw [← same, Function.update_eq_self]
  simp [Storage.performAll, Storage.perform, cells]

/-- A failed save shows unless the new record takes the place of one just like it. -/
theorem unchanged_iff_of_saveFailed (usable : ring.slots ≠ 0) (written : faults.writeAt = false)
    (failed : faults.saveCursors = true) :
    Unchanged faults ring storage record ↔
      ring.full = true ∧ (ring.contents storage).head? = some record.withCrc ∧
        ∀ other ∈ ring.contents storage, other.intact = true → other = record.withCrc := by
  simp only [Unchanged]
  rw [append_saveFailed usable written failed]
  dsimp only
  constructor
  · rintro ⟨shown, -⟩
    have full : ring.full = true := by
      by_contra room
      have grown := shown.1
      rw [depth_advance, makeRoom_of_room usable (Bool.not_eq_true _ ▸ room)] at grown
      omega
    have kept := shown.intact
    rw [contents_written usable, head_contents_full usable full, List.filter_append] at kept
    have last : [record.withCrc].filter PunchRecord.intact = [record.withCrc] := by simp
    rw [last] at kept
    cases first : (storage.cells (ring.head % ring.slots)).intact with
    | false =>
        rw [List.filter_cons_of_neg (by simp [first])] at kept
        exact absurd (congrArg List.length kept) (by simp)
    | true =>
        rw [List.filter_cons_of_pos first, eq_comm, cons_eq_concat_iff] at kept
        rw [head_contents_full usable full]
        refine ⟨full, congrArg some kept.1, List.forall_mem_cons.mpr ⟨fun _ => kept.1, ?_⟩⟩
        exact fun other member intact => kept.2 other (List.mem_filter.mpr ⟨member, intact⟩)
  · rintro ⟨full, first, alike⟩
    rw [head_contents_full usable full] at first alike
    have same : storage.cells (ring.head % ring.slots) = record.withCrc := Option.some.inj first
    have written := contents_written usable record storage
    rw [performAll_writeAt_self same] at written ⊢
    refine ⟨⟨?_, fun max => ?_⟩, .refl ..⟩
    · rw [depth_advance, depth_makeRoom_full usable full]
    · have shifted := cons_eq_concat_iff.mpr ⟨@rfl _ record.withCrc, fun other member =>
        alike other (List.mem_cons_of_mem _ (List.mem_filter.mp member).1) (List.mem_filter.mp member).2⟩
      rw [peek_eq, peek_eq, written, head_contents_full usable full, same, List.filter_append,
        List.filter_cons_of_pos (a := record.withCrc) record.withCrc_intact, List.filter_nil,
        List.filter_cons_of_pos record.withCrc_intact, shifted]

/-- When a failed append leaves the depth and the batches as they were. -/
theorem failed_append_unchanged_iff (faults : Faults) (ring : RingBuffer) (storage : Storage)
    (record : PunchRecord) (failed : (ring.append faults record).2.2 = false) :
    Unchanged faults ring storage record ↔ Harmless faults ring storage record := by
  by_cases usable : ring.slots = 0
  · have nothing : ring.append faults record = (ring, [], false) := by simp [append, usable]
    simp only [Unchanged]
    rw [nothing]
    exact ⟨fun _ => .inl usable, fun _ => ⟨.refl .., .refl ..⟩⟩
  · rcases failed_cases usable failed with write | ⟨written, save⟩
    · rw [unchanged_iff_of_writeFailed usable write]
      simp [Harmless, usable, write]
    · rw [unchanged_iff_of_saveFailed usable written save]
      simp [Harmless, usable, written]

open PowerCut.Terminal (punch)

/-- Two slots, holding punches 1 and 2. -/
def twoPunches : Storage := ⟨120, fun index => (punch (UInt64.ofNat (index + 1))).withCrc, some ⟨2, 0⟩⟩

/-- A failed write to a full ring loses the oldest record, and a failed save keeps the
new one. -/
theorem failed_append_shows :
    (((begin .none twoPunches).append { writeAt := true } (punch 3)).2.2 = false ∧
      ¬ Unchanged { writeAt := true } (begin .none twoPunches) twoPunches (punch 3)) ∧
    ((clamp 2 ⟨1, 0⟩).append { saveCursors := true } (punch 2)).2.2 = false ∧
      ¬ Unchanged { saveCursors := true } (clamp 2 ⟨1, 0⟩) twoPunches (punch 2) := by
  refine ⟨⟨by decide, fun same => ?_⟩, by decide, fun same => ?_⟩
  · exact absurd ((unchanged_iff_of_writeFailed (by decide) rfl).mp same) (by decide)
  · exact absurd ((unchanged_iff_of_saveFailed (by decide) rfl rfl).mp same).1 (by decide)

theorem failed_append_unchanged_iff_room :
    Unchanged { writeAt := true } (clamp 2 ⟨1, 0⟩) twoPunches (punch 2) ∧
      Harmless { writeAt := true } (clamp 2 ⟨1, 0⟩) twoPunches (punch 2) := by
  have harmless : Harmless { writeAt := true } (clamp 2 ⟨1, 0⟩) twoPunches (punch 2) :=
    .inr (.inl ⟨rfl, by decide⟩)
  exact ⟨(failed_append_unchanged_iff { writeAt := true } (clamp 2 ⟨1, 0⟩) twoPunches (punch 2)
    (by decide)).mpr harmless, harmless⟩

/-! ## Failed reads -/

instance : Std.LawfulOrderMax UInt64 :=
  .of_max_le_iff
    (fun first second third => by
      change (if first ≤ second then second else first) ≤ third ↔ _
      split
      next below => exact ⟨fun bound => ⟨UInt64.le_trans below bound, bound⟩, And.right⟩
      next above =>
        have less := UInt64.le_of_lt (UInt64.not_le.mp above)
        exact ⟨fun bound => ⟨bound, UInt64.le_trans less bound⟩, And.left⟩)
    (fun first second => by
      change (if first ≤ second then second else first) = _ ∨
        (if first ≤ second then second else first) = _
      split
      next => exact .inr rfl
      next => exact .inl rfl)

def largestSeq (batch : List PunchRecord) : Option UInt64 := (batch.map PunchRecord.seq).max?

/-- Peek a batch, upload it, acknowledge its largest sequence number: the batch, and how
many records that drops. -/
def flushRound (peeking acking : Faults) (ring : RingBuffer) (storage : Storage) (max : Nat) :
    List PunchRecord × Nat :=
  let batch := ring.peek peeking storage max
  match largestSeq batch with
  | none => (batch, 0)
  | some seq => (batch, (ring.ackThrough acking storage seq).1.tail - ring.tail)

/-- What a round drops was uploaded or is corrupt. -/
def LosesNothing (peeking acking : Faults) (ring : RingBuffer) (storage : Storage) (max : Nat) : Prop :=
  let (batch, dropped) := flushRound peeking acking ring storage max
  ∀ record ∈ (ring.contents storage).take dropped, record ∈ batch ∨ record.intact = false

def recordAt (ring : RingBuffer) (storage : Storage) (position : Nat) : PunchRecord :=
  Ring.read ring.slots storage.cells position

/-- The first positions of the ring that hold an intact record and whose read succeeds. -/
def legible (faults : Faults) (ring : RingBuffer) (storage : Storage) (max : Nat) : List Nat :=
  ((List.range' ring.tail ring.depth).filter fun position =>
    !faults.readAt position && (ring.recordAt storage position).intact).take max

/-- An intact record that the peek could not read is out of reach of the acknowledgement:
a read of its own fails there or before, or an intact record there or before is newer
than every one the peek could read. -/
def Shielded (peeking acking : Faults) (ring : RingBuffer) (storage : Storage) (max : Nat) : Prop :=
  ∀ position, ring.tail ≤ position → position < ring.head → (ring.recordAt storage position).intact = true →
    (∃ read ∈ legible peeking ring storage max, ring.recordAt storage read = ring.recordAt storage position) ∨
    ∃ stop, ring.tail ≤ stop ∧ stop ≤ position ∧
      (acking.readAt stop = true ∨
        (ring.recordAt storage stop).intact = true ∧
          ∀ read ∈ legible peeking ring storage max,
            (ring.recordAt storage read).seq < (ring.recordAt storage stop).seq)

theorem peekFrom_legible (faults : Faults) (storage : Storage) (slots left position max : Nat) :
    peekFrom faults storage slots left position max =
      (((List.range' position left).filter fun position =>
        !faults.readAt position && (Ring.read slots storage.cells position).intact).take max).map
          (Ring.read slots storage.cells) := by
  induction left generalizing position max with
  | zero => simp [peekFrom]
  | succ left ih =>
      cases max with
      | zero => simp [peekFrom]
      | succ max =>
          cases fault : faults.readAt position with
          | true => simp [peekFrom, fault, List.range'_succ, ih]
          | false =>
              cases intact : (Ring.read slots storage.cells position).intact <;>
                simp [peekFrom, fault, intact, List.range'_succ, ih]

theorem peek_legible (faults : Faults) (ring : RingBuffer) (storage : Storage) (max : Nat) :
    ring.peek faults storage max = (legible faults ring storage max).map (ring.recordAt storage) :=
  peekFrom_legible faults storage ring.slots ring.depth ring.tail max

/-- How far an acknowledgement gets. -/
theorem lt_dropCount_iff {slots left position index : Nat} {seq : UInt64} :
    index < dropCount faults storage slots seq left position ↔
      index < left ∧ ∀ step ≤ index, faults.readAt (position + step) = false ∧
        acked seq (Ring.read slots storage.cells (position + step)) = true := by
  induction left generalizing position index with
  | zero => simp [dropCount]
  | succ left ih =>
      unfold dropCount
      dsimp only
      split
      next fault =>
        refine ⟨fun impossible => absurd impossible (Nat.not_lt_zero _), fun covered => ?_⟩
        have first := (covered.2 0 (Nat.zero_le _)).1
        rw [Nat.add_zero, fault] at first
        cases first
      next fine =>
        split
        next newer =>
          refine ⟨fun impossible => absurd impossible (Nat.not_lt_zero _), fun covered => ?_⟩
          have first := (covered.2 0 (Nat.zero_le _)).2
          rw [Nat.add_zero, acked, newer] at first
          cases first
        next covered =>
          have here : faults.readAt position = false ∧
              acked seq (Ring.read slots storage.cells position) = true :=
            ⟨Bool.not_eq_true _ ▸ fine, by rwa [acked, Bool.not_eq_true', ← Bool.not_eq_true]⟩
          cases index with
          | zero =>
              refine ⟨fun _ => ⟨Nat.succ_pos _, fun step zero => ?_⟩, fun _ => Nat.succ_pos _⟩
              rw [Nat.le_zero.mp zero, Nat.add_zero]
              exact here
          | succ index =>
              rw [Nat.add_lt_add_iff_right, ih, Nat.add_lt_add_iff_right]
              refine and_congr_right fun _ => ⟨fun every step le => ?_, fun every step le => ?_⟩
              · cases step with
                | zero => exact here
                | succ step =>
                    rw [Nat.add_comm step 1, ← Nat.add_assoc]
                    exact every step (Nat.le_of_succ_le_succ le)
              · have later := every (step + 1) (Nat.succ_le_succ le)
                rwa [Nat.add_comm step 1, ← Nat.add_assoc] at later

theorem mem_take_contents {count : Nat} (within : count ≤ ring.depth) :
    record ∈ (ring.contents storage).take count ↔
      ∃ index < count, ring.recordAt storage (ring.tail + index) = record := by
  have cut : (ring.contents storage).take count =
      (List.range' ring.tail count).map (ring.recordAt storage) := by
    rw [contents, Ring.window, ← List.map_take, List.take_range'_of_length_ge (show ring.head - ring.tail ≥ count from within)]
    rfl
  rw [cut, List.mem_map]
  constructor
  · rintro ⟨position, member, same⟩
    obtain ⟨lower, upper⟩ := List.mem_range'_1.mp member
    exact ⟨position - ring.tail, by omega, by rw [Nat.add_sub_cancel' lower, same]⟩
  · rintro ⟨index, below, same⟩
    exact ⟨ring.tail + index, List.mem_range'_1.mpr ⟨by omega, by omega⟩, same⟩

/-- What a round loses, once its largest sequence number is known. -/
theorem losesNothing_iff_of_largest {peeking acking : Faults} {max : Nat} {seq : UInt64}
    (largest : largestSeq (ring.peek peeking storage max) = some seq) :
    LosesNothing peeking acking ring storage max ↔
      ∀ index < ring.depth, (∀ step ≤ index, acking.readAt (ring.tail + step) = false ∧
          acked seq (ring.recordAt storage (ring.tail + step)) = true) →
        ring.recordAt storage (ring.tail + index) ∈ ring.peek peeking storage max ∨
          (ring.recordAt storage (ring.tail + index)).intact = false := by
  have round : flushRound peeking acking ring storage max =
      (ring.peek peeking storage max,
        dropCount acking storage ring.slots seq ring.depth ring.tail) := by
    simp [flushRound, largest, ackThrough]
  simp only [LosesNothing]
  rw [round]
  dsimp only
  constructor
  · intro every index below covered
    refine every _ ((mem_take_contents (dropCount_le ..)).mpr ⟨index, ?_, rfl⟩)
    exact lt_dropCount_iff.mpr ⟨below, covered⟩
  · intro every record member
    obtain ⟨index, dropped, rfl⟩ := (mem_take_contents (dropCount_le ..)).mp member
    obtain ⟨below, covered⟩ := lt_dropCount_iff.mp dropped
    exact every index below covered

/-- Whether the acknowledgement gets past a position. -/
theorem not_acked_iff {peeking : Faults} {max : Nat} {seq : UInt64}
    (largest : largestSeq (ring.peek peeking storage max) = some seq) :
    ¬ acked seq record = true ↔
      record.intact = true ∧
        ∀ read ∈ legible peeking ring storage max, (ring.recordAt storage read).seq < record.seq := by
  rw [largestSeq, peek_legible, List.map_map] at largest
  obtain ⟨held, top⟩ := List.max?_eq_some_iff.mp largest
  rw [acked_iff, Classical.not_imp, UInt64.not_le]
  refine and_congr_right fun _ => ⟨fun newer read member => ?_, fun every => ?_⟩
  · exact UInt64.lt_of_le_of_lt (top _ (List.mem_map_of_mem member)) newer
  · obtain ⟨read, member, rfl⟩ := List.mem_map.mp held
    exact every read member

/-- When a round loses nothing, whichever reads fail. -/
theorem flushRound_losesNothing_iff (peeking acking : Faults) (ring : RingBuffer) (storage : Storage)
    (max : Nat) :
    LosesNothing peeking acking ring storage max ↔ Shielded peeking acking ring storage max := by
  have batch := peek_legible peeking ring storage max
  have reach : ring.tail + ring.depth = ring.head := Nat.add_sub_cancel' ring.ordered
  cases largest : largestSeq (ring.peek peeking storage max) with
  | none =>
      have empty : legible peeking ring storage max = [] := by
        have none := List.max?_eq_none_iff.mp largest
        rw [batch, List.map_map] at none
        exact List.map_eq_nil_iff.mp none
      constructor
      · intro _ position lower upper intact
        exact .inr ⟨position, lower, le_rfl, .inr ⟨intact, by simp [empty]⟩⟩
      · intro _
        simp [LosesNothing, flushRound, largest]
  | some seq =>
      rw [losesNothing_iff_of_largest largest, batch]
      constructor
      · intro kept position lower upper intact
        by_contra exposed
        obtain ⟨missed, unstopped⟩ := not_or.mp exposed
        -- nothing stops the acknowledgement up to here, so it drops the record
        have covered : ∀ step ≤ position - ring.tail, acking.readAt (ring.tail + step) = false ∧
            acked seq (ring.recordAt storage (ring.tail + step)) = true := by
          intro step le
          by_contra stopped
          refine unstopped ⟨ring.tail + step, by omega, by omega, ?_⟩
          rw [← not_acked_iff largest]
          cases fault : acking.readAt (ring.tail + step) with
          | true => exact .inl rfl
          | false => exact .inr fun passed => stopped ⟨fault, passed⟩
        have dropped := kept (position - ring.tail) (by omega) covered
        rw [Nat.add_sub_cancel' lower, intact] at dropped
        rcases dropped with member | corrupt
        · exact missed (List.mem_map.mp member)
        · cases corrupt
      · intro shielded index below covered
        cases intact : (ring.recordAt storage (ring.tail + index)).intact with
        | false => exact .inr rfl
        | true =>
            refine .inl (List.mem_map.mpr ?_)
            rcases shielded (ring.tail + index) (by omega) (by omega) intact with
              read | ⟨stop, lower, upper, stopped⟩
            · exact read
            · obtain ⟨fine, passed⟩ := covered (stop - ring.tail) (by omega)
              rw [Nat.add_sub_cancel' lower] at fine passed
              rcases stopped with fault | newer
              · rw [fine] at fault
                cases fault
              · exact absurd passed ((not_acked_iff largest).mpr newer)

def missesFirst : Faults := { readAt := (· == 0) }

theorem flushRound_missesFirst :
    flushRound missesFirst .none (begin .none twoPunches) twoPunches 50 = ([(punch 2).withCrc], 2) := by
  decide +kernel

/-- The peek misses punch 1 and the acknowledgement of punch 2 drops it. -/
theorem failed_read_loses_punch :
    flushRound missesFirst .none (begin .none twoPunches) twoPunches 50 = ([(punch 2).withCrc], 2) ∧
      ¬ LosesNothing missesFirst .none (begin .none twoPunches) twoPunches 50 := by
  refine ⟨flushRound_missesFirst, ?_⟩
  rw [LosesNothing, flushRound_missesFirst]
  intro kept
  have first : (punch 1).withCrc ∈ ((begin .none twoPunches).contents twoPunches).take 2 :=
    (mem_take_contents (by decide)).mpr ⟨0, by decide, rfl⟩
  rcases kept _ first with uploaded | corrupt
  · have same := congrArg PunchRecord.seq (List.mem_singleton.mp uploaded)
    exact absurd same (by decide)
  · rw [PunchRecord.withCrc_intact] at corrupt
    cases corrupt

end RingBuffer

end Presence.Firmware
