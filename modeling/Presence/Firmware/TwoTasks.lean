import Presence.Data.Run
import Presence.Firmware.StorageFaults

namespace Presence.Firmware.TwoTasks

open Presence.Data
open RingBuffer (largestSeq)

/-! # The scan task and the network task on one ring

`LittleFsStorage` has one open file and so one file position, and nothing locks
the ring: the scan task appends on one core while the network task peeks and
acknowledges on the other.  Each seek, read, write and NVS call is one step, and
the ring's own code runs with the call before it, up to the next one.  Offsets
are whole records, so the position counts records.

The last four fields of a terminal are books nobody reads: the ring position and
record of every append that returned true, what was uploaded, and the positions
given up by a full ring and by `ackThrough`.
-/

def maxBatch : Nat := 50

/-- Where the scan task stands in `append`, by the storage call it makes next. -/
inductive ScanTask where
  | idle
  | seek (record : PunchRecord) (index : Nat)
  | write (record : PunchRecord)
  | save (record : PunchRecord) (cursors : Cursors)
deriving DecidableEq

/-- Where the network task stands in a round of `peek`, upload and `ackThrough`. -/
inductive NetTask where
  | idle
  | peekSeek (position : Nat) (batch : List PunchRecord)
  | peekRead (position : Nat) (batch : List PunchRecord)
  | upload (batch : List PunchRecord)
  | ackSeek (seq : UInt64) (index : Nat)
  | ackRead (seq : UInt64)
  | save (cursors : Cursors)
deriving DecidableEq

def ScanTask.busy : ScanTask → Bool
  | .idle => false
  | _ => true

def NetTask.acking : NetTask → Bool
  | .ackSeek .. | .ackRead _ | .save _ => true
  | _ => false

/-- Inside `peek` or `ackThrough`; waiting for the upload is not. -/
def NetTask.busy : NetTask → Bool
  | .idle | .upload _ => false
  | _ => true

structure Terminal where
  storage : Storage
  fileRecords : Nat
  filePosition : Nat
  head : Nat
  tail : Nat
  scan : ScanTask
  net : NetTask
  /-- Every sequence number handed to `append` so far is below this. -/
  nextSeq : Nat
  accepted : List (Nat × PunchRecord)
  uploaded : List PunchRecord
  evicted : List Nat
  dropped : List Nat

inductive Event where
  | append (record : PunchRecord)
  | scan
  | flush
  | net
  | answer (answered : Bool)

namespace Terminal

def slots (terminal : Terminal) : Nat := terminal.storage.capacityBytes / recordBytes

def cursors (terminal : Terminal) : Cursors := ⟨terminal.head, terminal.tail⟩

/-- `full`: the difference is unsigned, so a tail past the head underflows to more
than any ring holds. -/
def full (terminal : Terminal) : Bool :=
  decide (terminal.head < terminal.tail) ||
    decide (terminal.slots ≤ terminal.head - terminal.tail)

def saveCursors (terminal : Terminal) (cursors : Cursors) : Terminal :=
  { terminal with storage := { terminal.storage with cursors := some cursors } }

/-- A read at the end of the file comes back short and moves nothing. -/
def readRecord (terminal : Terminal) : Option (PunchRecord × Terminal) :=
  if terminal.filePosition < terminal.fileRecords then
    some (terminal.storage.cells terminal.filePosition,
      { terminal with filePosition := terminal.filePosition + 1 })
  else none

/-- A write at the end of the file makes it longer. -/
def writeRecord (terminal : Terminal) (record : PunchRecord) : Terminal :=
  { terminal with
    storage := { terminal.storage with
      cells := Function.update terminal.storage.cells terminal.filePosition record }
    fileRecords := max terminal.fileRecords (terminal.filePosition + 1)
    filePosition := terminal.filePosition + 1 }

/-- `append` up to its seek. -/
def callAppend (terminal : Terminal) (record : PunchRecord) : Terminal :=
  let spent := { terminal with nextSeq := record.seq.toNat + 1 }
  if terminal.slots = 0 then spent
  else
    let roomy :=
      if terminal.full then
        { spent with tail := terminal.tail + 1, evicted := terminal.tail :: terminal.evicted }
      else spent
    { roomy with scan := .seek record.withCrc (terminal.head % terminal.slots) }

def scanStep (terminal : Terminal) : Option Terminal :=
  match terminal.scan with
  | .idle => none
  | .seek record index => some { terminal with filePosition := index, scan := .write record }
  | .write record =>
      let written := { terminal.writeRecord record with head := terminal.head + 1 }
      some { written with scan := .save record written.cursors }
  | .save record cursors =>
      some { terminal.saveCursors cursors with
        scan := .idle
        accepted := (cursors.head - 1, record) :: terminal.accepted }

/-- The loop of `peek` up to its next seek; `flushEvents` uploads unless the batch is
empty. -/
def peekLoop (terminal : Terminal) (position : Nat) (batch : List PunchRecord) : Terminal :=
  if position < terminal.head ∧ batch.length < maxBatch then
    { terminal with net := .peekSeek position batch }
  else if batch = [] then { terminal with net := .idle }
  else { terminal with net := .upload batch }

/-- The loop of `ackThrough` up to its next seek, or to the save behind it. -/
def ackLoop (terminal : Terminal) (seq : UInt64) : Terminal :=
  if terminal.tail < terminal.head then
    { terminal with net := .ackSeek seq (terminal.tail % terminal.slots) }
  else { terminal with net := .save terminal.cursors }

def netStep (terminal : Terminal) : Option Terminal :=
  match terminal.net with
  | .idle | .upload _ => none
  | .peekSeek position batch =>
      some { terminal with
        filePosition := position % terminal.slots
        net := .peekRead position batch }
  | .peekRead position batch =>
      match terminal.readRecord with
      | none => some (terminal.peekLoop (position + 1) batch)
      | some (record, next) =>
          some (next.peekLoop (position + 1) (if record.intact then batch ++ [record] else batch))
  | .ackSeek seq index => some { terminal with filePosition := index, net := .ackRead seq }
  | .ackRead seq =>
      match terminal.readRecord with
      | none => some { terminal with net := .save terminal.cursors }
      | some (record, next) =>
          if record.intact && decide (seq < record.seq) then
            some { next with net := .save terminal.cursors }
          else
            -- `tail_++` moves whatever the tail is by now
            let given := { next with
              tail := terminal.tail + 1
              dropped := terminal.tail :: terminal.dropped }
            some (given.ackLoop seq)
  | .save cursors => some { terminal.saveCursors cursors with net := .idle }

/-- The upload is answered with the largest sequence number of its batch, or fails. -/
def answered (terminal : Terminal) (batch : List PunchRecord) : Bool → Terminal
  | false => { terminal with net := .idle }
  | true =>
      let sent := { terminal with uploaded := batch ++ terminal.uploaded }
      match largestSeq batch with
      | none => { sent with net := .idle }
      | some seq => if 0 < seq then sent.ackLoop seq else { sent with net := .idle }

def step (terminal : Terminal) : Event → Option Terminal
  | .append record =>
      if terminal.scan = .idle ∧ terminal.nextSeq ≤ record.seq.toNat then
        some (terminal.callAppend record)
      else none
  | .scan => terminal.scanStep
  | .flush => if terminal.net = .idle then some (terminal.peekLoop terminal.tail []) else none
  | .net => terminal.netStep
  | .answer answer =>
      match terminal.net with
      | .upload batch => some (terminal.answered batch answer)
      | _ => none

def boot (storage : Storage) (nextSeq : Nat) : Terminal :=
  let ring := RingBuffer.begin .none storage
  { storage
    fileRecords := storage.capacityBytes / recordBytes
    filePosition := 0
    head := ring.head
    tail := ring.tail
    scan := .idle
    net := .idle
    nextSeq
    accepted := []
    uploaded := []
    evicted := []
    dropped := [] }

/-! ## The two promises -/

/-- What `ackThrough` drops of the accepted records was uploaded, or evicted before. -/
def DropsOnlyUploaded (terminal : Terminal) : Prop :=
  ∀ position record, (position, record) ∈ terminal.accepted → position ∈ terminal.dropped →
    record ∈ terminal.uploaded ∨ position ∈ terminal.evicted

/-- A reboot would come back with the cursors in RAM. -/
def Persisted (terminal : Terminal) : Prop :=
  (RingBuffer.begin .none terminal.storage).cursors = terminal.cursors

def Idle (terminal : Terminal) : Prop :=
  terminal.scan.busy = false ∧ terminal.net.busy = false

/-- No operation of one task starts inside an operation of the other. -/
def Exclusive (terminal : Terminal) : Event → Prop
  | .append _ => terminal.net.busy = false
  | .flush | .answer true => terminal.scan.busy = false
  | _ => True

/-! ## What the books say of one record -/

def recordAt (terminal : Terminal) (position : Nat) : PunchRecord :=
  Ring.read terminal.slots terminal.storage.cells position

/-- The acknowledgement under way, or the one the upload will bring, stops before a
record nobody uploaded. -/
def Spares (uploaded : List PunchRecord) (record : PunchRecord) : NetTask → Prop
  | .upload batch => record ∈ batch ∨ ∀ sent ∈ batch, sent.seq < record.seq
  | .ackSeek seq _ | .ackRead seq => record ∈ uploaded ∨ seq < record.seq
  | _ => True

structure Entry (terminal : Terminal) (position : Nat) (record : PunchRecord) : Prop where
  written : position < terminal.head
  intact : record.intact = true
  below : record.seq.toNat < terminal.nextSeq
  held : terminal.tail ≤ position → terminal.recordAt position = record
  newest : ∀ older, terminal.tail ≤ older → older < position →
    (terminal.recordAt older).intact = true → (terminal.recordAt older).seq < record.seq
  spared : terminal.tail ≤ position → Spares terminal.uploaded record terminal.net
  kept : position ∈ terminal.dropped → record ∈ terminal.uploaded

structure Books (terminal : Terminal) : Prop where
  ordered : terminal.tail ≤ terminal.head
  bounded : terminal.head ≤ terminal.tail + terminal.slots
  whole : terminal.slots ≤ terminal.fileRecords
  below : ∀ position, terminal.tail ≤ position → position < terminal.head →
    (terminal.recordAt position).intact = true →
    (terminal.recordAt position).seq.toNat < terminal.nextSeq
  behind : ∀ position ∈ terminal.dropped, position < terminal.tail
  entries : ∀ entry ∈ terminal.accepted, terminal.Entry entry.1 entry.2

/-- The record an `append` is about to write, newer than all the ring holds and all the
other task has read. -/
structure Pending (terminal : Terminal) (record : PunchRecord) : Prop where
  room : terminal.head < terminal.tail + terminal.slots
  intact : record.intact = true
  below : record.seq.toNat < terminal.nextSeq
  newest : ∀ older, terminal.tail ≤ older → older < terminal.head →
    (terminal.recordAt older).intact = true → (terminal.recordAt older).seq < record.seq
  unread : ∀ batch, terminal.net = .upload batch → ∀ sent ∈ batch, sent.seq < record.seq

def Scanning (terminal : Terminal) : ScanTask → Prop
  | .idle => True
  | .seek record index => index = terminal.head % terminal.slots ∧ terminal.Pending record
  | .write record =>
      terminal.filePosition = terminal.head % terminal.slots ∧ terminal.Pending record
  | .save record cursors =>
      cursors = terminal.cursors ∧ terminal.tail < terminal.head ∧
        terminal.Entry (terminal.head - 1) record

/-- `batch` is what the ring holds intact from the tail up to `position`. -/
structure Peeked (terminal : Terminal) (position : Nat) (batch : List PunchRecord) : Prop where
  started : terminal.tail ≤ position
  within : position ≤ terminal.head
  sound : ∀ record ∈ batch, ∃ read, terminal.tail ≤ read ∧ read < position ∧
    record.intact = true ∧ terminal.recordAt read = record
  complete : ∀ read, terminal.tail ≤ read → read < position →
    (terminal.recordAt read).intact = true → terminal.recordAt read ∈ batch

def Flushing (terminal : Terminal) : NetTask → Prop
  | .idle => True
  | .peekSeek position batch => terminal.Peeked position batch ∧ position < terminal.head
  | .peekRead position batch =>
      terminal.filePosition = position % terminal.slots ∧ terminal.Peeked position batch ∧
        position < terminal.head
  | .upload batch => terminal.slots ≠ 0 ∧ ∀ sent ∈ batch, sent.seq.toNat < terminal.nextSeq
  | .ackSeek _ index => index = terminal.tail % terminal.slots ∧ terminal.tail < terminal.head
  | .ackRead _ =>
      terminal.filePosition = terminal.tail % terminal.slots ∧ terminal.tail < terminal.head
  | .save cursors => cursors = terminal.cursors ∧ terminal.slots ≠ 0

/-- What holds between any two steps when no two operations overlap. -/
structure Sound (terminal : Terminal) : Prop where
  books : terminal.Books
  apart : terminal.scan.busy = true → terminal.net.busy = false
  settled : terminal.scan.busy = false → terminal.net.acking = false → terminal.Persisted
  scanning : terminal.Scanning terminal.scan
  flushing : terminal.Flushing terminal.net

variable {terminal next : Terminal} {record : PunchRecord} {position : Nat}
  {batch : List PunchRecord} {seq : UInt64}

theorem Sound.of_idle (idle : terminal.scan = .idle) (books : terminal.Books)
    (settled : terminal.net.acking = false → terminal.Persisted)
    (flushing : terminal.Flushing terminal.net) : terminal.Sound where
  books := books
  apart := by
    rw [idle]
    nofun
  settled := fun _ => settled
  scanning := by
    rw [idle]
    trivial
  flushing := flushing

/-- `next` has given up and written positions of the ring, and changed none it kept. -/
structure Follows (terminal next : Terminal) : Prop where
  slots : next.slots = terminal.slots
  head : terminal.head ≤ next.head
  tail : terminal.tail ≤ next.tail
  nextSeq : terminal.nextSeq ≤ next.nextSeq
  same : ∀ position, next.tail ≤ position → position < terminal.head →
    next.recordAt position = terminal.recordAt position

theorem Entry.follows (entry : terminal.Entry position record) (follows : Follows terminal next)
    (spared : next.tail ≤ position → Spares next.uploaded record next.net)
    (kept : position ∈ next.dropped → record ∈ next.uploaded) : next.Entry position record where
  written := Nat.lt_of_lt_of_le entry.written follows.head
  intact := entry.intact
  below := Nat.lt_of_lt_of_le entry.below follows.nextSeq
  held := fun live => by
    rw [follows.same position live entry.written]
    exact entry.held (Nat.le_trans follows.tail live)
  newest := fun older live before intact => by
    rw [follows.same older live (Nat.lt_trans before entry.written)] at intact ⊢
    exact entry.newest older (Nat.le_trans follows.tail live) before intact
  spared := spared
  kept := kept

theorem Peeked.follows (peeked : terminal.Peeked position batch) (follows : Follows terminal next)
    (tail : next.tail = terminal.tail) : next.Peeked position batch where
  started := tail ▸ peeked.started
  within := Nat.le_trans peeked.within follows.head
  sound := fun record member => by
    obtain ⟨read, lower, upper, intact, same⟩ := peeked.sound record member
    refine ⟨read, tail ▸ lower, upper, intact, ?_⟩
    rw [follows.same read (tail ▸ lower) (Nat.lt_of_lt_of_le upper peeked.within), same]
  complete := fun read lower upper intact => by
    have same := follows.same read lower (Nat.lt_of_lt_of_le upper peeked.within)
    rw [same] at intact ⊢
    exact peeked.complete read (tail ▸ lower) upper intact

theorem Books.follows (books : terminal.Books) (follows : Follows terminal next)
    (ordered : next.tail ≤ next.head) (bounded : next.head ≤ next.tail + next.slots)
    (whole : terminal.fileRecords ≤ next.fileRecords)
    (fresh : ∀ position, terminal.head ≤ position → position < next.head →
      (next.recordAt position).seq.toNat < next.nextSeq)
    (behind : ∀ position ∈ next.dropped, position < next.tail)
    (accepted : next.accepted = terminal.accepted)
    (spared : ∀ position record, terminal.Entry position record → next.tail ≤ position →
      Spares next.uploaded record next.net)
    (kept : ∀ position record, terminal.Entry position record → position ∈ next.dropped →
      record ∈ next.uploaded) : next.Books where
  ordered := ordered
  bounded := bounded
  whole := by
    rw [follows.slots]
    exact Nat.le_trans books.whole whole
  below := fun position live within intact => by
    rcases Nat.lt_or_ge position terminal.head with old | new
    · rw [follows.same position live old] at intact ⊢
      have before := books.below position (Nat.le_trans follows.tail live) old intact
      exact Nat.lt_of_lt_of_le before follows.nextSeq
    · exact fresh position new within
  behind := behind
  entries := fun entry member => by
    have old := books.entries entry (accepted ▸ member)
    exact old.follows follows (spared _ _ old) (kept _ _ old)

/-- Where the head stays, no record is new. -/
theorem Books.unwritten (books : terminal.Books) (follows : Follows terminal next)
    (head : next.head = terminal.head) (ordered : next.tail ≤ next.head)
    (bounded : next.head ≤ next.tail + next.slots) (whole : terminal.fileRecords ≤ next.fileRecords)
    (behind : ∀ position ∈ next.dropped, position < next.tail)
    (accepted : next.accepted = terminal.accepted)
    (spared : ∀ position record, terminal.Entry position record → next.tail ≤ position →
      Spares next.uploaded record next.net)
    (kept : ∀ position record, terminal.Entry position record → position ∈ next.dropped →
      record ∈ next.uploaded) : next.Books := by
  refine books.follows follows ordered bounded whole ?_ behind accepted spared kept
  intro position above within
  rw [head] at within
  exact absurd within (Nat.not_lt.mpr above)

/-- The ring and the books of it are as they were; only a task has moved on. -/
structure Still (terminal next : Terminal) : Prop where
  slots : next.slots = terminal.slots
  cells : next.storage.cells = terminal.storage.cells
  fileRecords : next.fileRecords = terminal.fileRecords
  cursors : next.cursors = terminal.cursors
  nextSeq : next.nextSeq = terminal.nextSeq
  accepted : next.accepted = terminal.accepted
  dropped : next.dropped = terminal.dropped
  uploaded : terminal.uploaded ⊆ next.uploaded

theorem Still.head (still : Still terminal next) : next.head = terminal.head :=
  congrArg Cursors.head still.cursors

theorem Still.tail (still : Still terminal next) : next.tail = terminal.tail :=
  congrArg Cursors.tail still.cursors

theorem Still.recordAt (still : Still terminal next) (position : Nat) :
    next.recordAt position = terminal.recordAt position := by
  rw [Terminal.recordAt, still.slots, still.cells]
  rfl

theorem Still.follows (still : Still terminal next) : Follows terminal next where
  slots := still.slots
  head := Nat.le_of_eq still.head.symm
  tail := Nat.le_of_eq still.tail.symm
  nextSeq := Nat.le_of_eq still.nextSeq.symm
  same := fun position _ _ => still.recordAt position

theorem Books.still (books : terminal.Books) (still : Still terminal next)
    (spared : ∀ position record, terminal.Entry position record → terminal.tail ≤ position →
      Spares next.uploaded record next.net) : next.Books := by
  refine books.unwritten still.follows still.head ?_ ?_ (Nat.le_of_eq still.fileRecords.symm) ?_ still.accepted
    ?_ ?_
  · rw [still.tail, still.head]
    exact books.ordered
  · rw [still.tail, still.head, still.slots]
    exact books.bounded
  · rw [still.dropped, still.tail]
    exact books.behind
  · intro position record entry live
    exact spared position record entry (still.tail ▸ live)
  · intro position record entry gone
    exact still.uploaded (entry.kept (still.dropped ▸ gone))

/-! ## The scan task's steps -/

theorem Flushing.follows {net : NetTask} (flushing : terminal.Flushing net)
    (quiet : net.busy = false) (follows : Follows terminal next) : next.Flushing net := by
  cases net with
  | idle => trivial
  | upload batch =>
      exact ⟨follows.slots ▸ flushing.1, fun sent member =>
        Nat.lt_of_lt_of_le (flushing.2 sent member) follows.nextSeq⟩
  | peekSeek | peekRead | ackSeek | ackRead | save => cases quiet

theorem Sound.callAppend (sound : terminal.Sound) (idle : terminal.scan = .idle)
    (quiet : terminal.net.busy = false) (admitted : terminal.nextSeq ≤ record.seq.toNat) :
    (terminal.callAppend record).Sound := by
  have ordered := sound.books.ordered
  have bounded := sound.books.bounded
  have later : terminal.nextSeq ≤ record.seq.toNat + 1 := Nat.le_succ_of_le admitted
  simp only [Terminal.callAppend]
  split
  next unusable =>
    -- no slots: only the sequence number is spent
    have follows : Follows terminal { terminal with nextSeq := record.seq.toNat + 1 } :=
      ⟨rfl, le_rfl, le_rfl, later, fun _ _ _ => rfl⟩
    refine ⟨sound.books.unwritten follows rfl ordered bounded le_rfl sound.books.behind rfl
      (fun _ _ entry => entry.spared) fun _ _ entry => entry.kept, sound.apart, sound.settled, ?_,
      sound.flushing.follows quiet follows⟩
    change Terminal.Scanning _ terminal.scan
    rw [idle]
    trivial
  next usable =>
    have unread : ∀ batch, terminal.net = .upload batch → ∀ sent ∈ batch, sent.seq < record.seq := by
      intro batch upload sent member
      have flushing := sound.flushing
      rw [upload] at flushing
      exact UInt64.lt_iff_toNat_lt.mpr (Nat.lt_of_lt_of_le (flushing.2 sent member) admitted)
    have newest : ∀ older, terminal.tail ≤ older → older < terminal.head →
        (terminal.recordAt older).intact = true → (terminal.recordAt older).seq < record.seq := by
      intro older live within intact
      have below := sound.books.below older live within intact
      exact UInt64.lt_iff_toNat_lt.mpr (Nat.lt_of_lt_of_le below admitted)
    split
    next full =>
      have crowded : terminal.slots ≤ terminal.head - terminal.tail := by
        rw [Terminal.full, Bool.or_eq_true, decide_eq_true_eq, decide_eq_true_eq] at full
        omega
      have roomy : terminal.tail + 1 ≤ terminal.head := by omega
      have room : terminal.head < terminal.tail + 1 + terminal.slots := by omega
      have follows : Follows terminal { terminal with
          nextSeq := record.seq.toNat + 1
          tail := terminal.tail + 1
          evicted := terminal.tail :: terminal.evicted
          scan := .seek record.withCrc (terminal.head % terminal.slots) } :=
        ⟨rfl, le_rfl, Nat.le_succ _, later, fun _ _ _ => rfl⟩
      refine ⟨sound.books.unwritten follows rfl roomy (Nat.le_of_lt room) le_rfl ?_ rfl
        (fun _ _ entry live => entry.spared (Nat.le_of_succ_le live)) fun _ _ entry => entry.kept,
        fun _ => quiet, nofun, ⟨rfl, room, record.withCrc_intact, Nat.lt_succ_self _, ?_, unread⟩,
        sound.flushing.follows quiet follows⟩
      · intro position gone
        exact Nat.lt_succ_of_lt (sound.books.behind position gone)
      · intro older live
        exact newest older (Nat.le_of_succ_le live)
    next roomy =>
      have room : terminal.head < terminal.tail + terminal.slots := by
        rw [Terminal.full, Bool.or_eq_true, decide_eq_true_eq, decide_eq_true_eq] at roomy
        omega
      have follows : Follows terminal { terminal with
          nextSeq := record.seq.toNat + 1
          scan := .seek record.withCrc (terminal.head % terminal.slots) } :=
        ⟨rfl, le_rfl, le_rfl, later, fun _ _ _ => rfl⟩
      exact ⟨sound.books.unwritten follows rfl ordered bounded le_rfl sound.books.behind rfl
        (fun _ _ entry => entry.spared) fun _ _ entry => entry.kept, fun _ => quiet, nofun,
        ⟨rfl, room, record.withCrc_intact, Nat.lt_succ_self _, newest, unread⟩,
        sound.flushing.follows quiet follows⟩

theorem Sound.scanSeek {index : Nat} (sound : terminal.Sound)
    (seeking : terminal.scan = .seek record index) :
    Sound { terminal with filePosition := index, scan := .write record } := by
  have scanning := sound.scanning
  rw [seeking] at scanning
  obtain ⟨same, pending⟩ := scanning
  have quiet := sound.apart (by rw [seeking]; rfl)
  have still : Still terminal { terminal with filePosition := index, scan := .write record } :=
    ⟨rfl, rfl, rfl, rfl, rfl, rfl, rfl, List.Subset.refl _⟩
  exact ⟨sound.books.still still fun _ _ entry => entry.spared, fun _ => quiet, nofun,
    ⟨same, pending.room, pending.intact, pending.below, pending.newest, pending.unread⟩,
    sound.flushing.follows quiet still.follows⟩

theorem Sound.scanWrite (sound : terminal.Sound) (writing : terminal.scan = .write record) :
    Sound { terminal.writeRecord record with
      head := terminal.head + 1
      scan := .save record ⟨terminal.head + 1, terminal.tail⟩ } := by
  have scanning := sound.scanning
  rw [writing] at scanning
  obtain ⟨place, pending⟩ := scanning
  have quiet := sound.apart (by rw [writing]; rfl)
  have ordered := sound.books.ordered
  have room := pending.room
  have cells : Function.update terminal.storage.cells terminal.filePosition record =
      Ring.write terminal.slots terminal.storage.cells terminal.head record := by
    rw [place]
    rfl
  have same : ∀ position, terminal.tail ≤ position → position < terminal.head →
      Ring.read terminal.slots (Function.update terminal.storage.cells terminal.filePosition record)
        position = terminal.recordAt position := by
    intro position live within
    rw [cells]
    exact Ring.read_write_of_near record within (by omega)
  have last : Ring.read terminal.slots
      (Function.update terminal.storage.cells terminal.filePosition record) terminal.head = record := by
    rw [cells, Ring.read_write_self]
  have follows : Follows terminal { terminal.writeRecord record with
      head := terminal.head + 1
      scan := .save record ⟨terminal.head + 1, terminal.tail⟩ } :=
    ⟨rfl, Nat.le_succ _, le_rfl, le_rfl, same⟩
  have spared : Spares terminal.uploaded record terminal.net := by
    cases net : terminal.net with
    | upload batch => exact .inr (pending.unread batch net)
    | idle => trivial
    | peekSeek | peekRead | ackSeek | ackRead | save =>
        rw [net] at quiet
        cases quiet
  refine ⟨sound.books.follows follows (Nat.le_succ_of_le ordered) (Nat.succ_le_of_lt room)
    (Nat.le_max_left ..) ?_ sound.books.behind rfl (fun _ _ entry => entry.spared)
    fun _ _ entry => entry.kept, fun _ => quiet, nofun, ⟨rfl, Nat.lt_succ_of_le ordered, ?_⟩,
    sound.flushing.follows quiet follows⟩
  · intro position above within
    have here : position = terminal.head := Nat.le_antisymm (Nat.le_of_lt_succ within) above
    rw [here]
    change (Ring.read terminal.slots
      (Function.update terminal.storage.cells terminal.filePosition record) terminal.head).seq.toNat < _
    rw [last]
    exact pending.below
  · refine ⟨Nat.lt_succ_self _, pending.intact, pending.below, fun _ => last, ?_, fun _ => spared, ?_⟩
    · intro older live before intact
      have old := same older live before
      rw [recordAt] at intact ⊢
      exact old.symm ▸ pending.newest older live before (old ▸ intact)
    · intro gone
      exact absurd (sound.books.behind _ gone) (Nat.not_lt.mpr ordered)

theorem Books.persisted (books : terminal.Books) (usable : terminal.slots ≠ 0)
    (saved : terminal.storage.cursors = some terminal.cursors) : terminal.Persisted := by
  let ring : RingBuffer :=
    ⟨terminal.slots, terminal.head, terminal.tail, books.ordered, books.bounded⟩
  have settled : ring.Settled terminal.storage := RingBuffer.begin_of_saved rfl usable saved
  rw [Persisted, settled]
  rfl

theorem Books.accept (books : terminal.Books) (entry : terminal.Entry position record) :
    Books { terminal with accepted := (position, record) :: terminal.accepted } := by
  refine ⟨books.ordered, books.bounded, books.whole, books.below, books.behind, ?_⟩
  intro other member
  rcases List.mem_cons.mp member with rfl | old
  · exact entry.follows ⟨rfl, le_rfl, le_rfl, le_rfl, fun _ _ _ => rfl⟩ entry.spared entry.kept
  · have before := books.entries other old
    exact before.follows ⟨rfl, le_rfl, le_rfl, le_rfl, fun _ _ _ => rfl⟩ before.spared before.kept

theorem Sound.scanSave {cursors : Cursors} (sound : terminal.Sound)
    (saving : terminal.scan = .save record cursors) :
    Sound { terminal.saveCursors cursors with
      scan := .idle
      accepted := (cursors.head - 1, record) :: terminal.accepted } := by
  have scanning := sound.scanning
  rw [saving] at scanning
  obtain ⟨rfl, holding, entry⟩ := scanning
  have quiet := sound.apart (by rw [saving]; rfl)
  have bounded := sound.books.bounded
  have still : Still terminal { terminal.saveCursors terminal.cursors with scan := .idle } :=
    ⟨rfl, rfl, rfl, rfl, rfl, rfl, rfl, List.Subset.refl _⟩
  have books := sound.books.still still fun _ _ entry => entry.spared
  have accepted := books.accept (entry.follows still.follows entry.spared entry.kept)
  refine ⟨accepted, nofun, fun _ _ => accepted.persisted ?_ rfl, trivial,
    sound.flushing.follows quiet ⟨rfl, le_rfl, le_rfl, le_rfl, fun _ _ _ => rfl⟩⟩
  change terminal.slots ≠ 0
  omega

/-! ## The network task's steps -/

theorem readRecord_of_place (books : terminal.Books) (usable : terminal.slots ≠ 0)
    (place : terminal.filePosition = position % terminal.slots) :
    terminal.readRecord =
      some (terminal.recordAt position, { terminal with filePosition := terminal.filePosition + 1 }) := by
  have inside : terminal.filePosition < terminal.fileRecords := by
    rw [place]
    exact Nat.lt_of_lt_of_le (Nat.mod_lt _ (Nat.pos_of_ne_zero usable)) books.whole
  rw [readRecord, if_pos inside, recordAt, Ring.read, ← place]

theorem Peeked.read (peeked : terminal.Peeked position batch) (within : position < terminal.head) :
    terminal.Peeked (position + 1)
      (if (terminal.recordAt position).intact then batch ++ [terminal.recordAt position] else batch) := by
  refine ⟨Nat.le_succ_of_le peeked.started, within, ?_, ?_⟩
  · intro record member
    have old : record ∈ batch → ∃ read, terminal.tail ≤ read ∧ read < position + 1 ∧
        record.intact = true ∧ terminal.recordAt read = record := by
      intro inBatch
      obtain ⟨read, lower, upper, found⟩ := peeked.sound record inBatch
      exact ⟨read, lower, Nat.lt_succ_of_lt upper, found⟩
    split at member
    next intact =>
      rcases List.mem_append.mp member with before | last
      · exact old before
      · rw [List.mem_singleton.mp last]
        exact ⟨position, peeked.started, Nat.lt_succ_self _, intact, rfl⟩
    next => exact old member
  · intro read lower upper intact
    rcases Nat.lt_succ_iff_lt_or_eq.mp upper with before | rfl
    · have member := peeked.complete read lower before intact
      split
      · exact List.mem_append_left _ member
      · exact member
    · rw [if_pos intact]
      exact List.mem_append_right _ (List.mem_singleton.mpr rfl)

/-- What a finished `peek` does not hold is newer than all of it. -/
theorem Peeked.spares (peeked : terminal.Peeked position batch) {written : Nat}
    (entry : terminal.Entry written record) (live : terminal.tail ≤ written) :
    record ∈ batch ∨ ∀ sent ∈ batch, sent.seq < record.seq := by
  rcases Nat.lt_or_ge written position with reached | beyond
  · left
    have held := entry.held live
    have member := peeked.complete written live reached (held.symm ▸ entry.intact)
    exact held ▸ member
  · right
    intro sent member
    obtain ⟨read, lower, upper, intact, same⟩ := peeked.sound sent member
    rw [← same] at intact ⊢
    exact entry.newest read lower (Nat.lt_of_lt_of_le upper beyond) intact

theorem sound_peekLoop (books : terminal.Books) (idle : terminal.scan = .idle)
    (persisted : terminal.Persisted) (peeked : terminal.Peeked position batch) :
    (terminal.peekLoop position batch).Sound := by
  have still : ∀ net : NetTask, Still terminal { terminal with net } := fun _ =>
    ⟨rfl, rfl, rfl, rfl, rfl, rfl, rfl, List.Subset.refl _⟩
  simp only [peekLoop]
  split
  next more =>
    exact .of_idle idle (books.still (still _) fun _ _ _ _ => trivial) (fun _ => persisted)
      ⟨peeked.follows (still _).follows rfl, more.1⟩
  next done =>
    split
    next =>
      exact .of_idle idle (books.still (still _) fun _ _ _ _ => trivial) (fun _ => persisted) trivial
    next some =>
      refine .of_idle idle (books.still (still _) fun _ _ entry live => peeked.spares entry live)
        (fun _ => persisted) ⟨?_, ?_⟩
      · obtain ⟨first, member⟩ := List.exists_mem_of_ne_nil batch some
        obtain ⟨read, lower, upper, -⟩ := peeked.sound first member
        have within := peeked.within
        have bounded := books.bounded
        change terminal.slots ≠ 0
        omega
      · intro sent member
        obtain ⟨read, lower, upper, intact, rfl⟩ := peeked.sound sent member
        exact books.below read lower (Nat.lt_of_lt_of_le upper peeked.within) intact

theorem Sound.flush (sound : terminal.Sound) (idle : terminal.scan = .idle)
    (resting : terminal.net = .idle) : (terminal.peekLoop terminal.tail []).Sound := by
  have persisted := sound.settled (by rw [idle]; rfl) (by rw [resting]; rfl)
  have none : terminal.Peeked terminal.tail [] :=
    ⟨le_rfl, sound.books.ordered, fun _ member => (List.not_mem_nil member).elim,
      fun read lower upper => absurd upper (Nat.not_lt.mpr lower)⟩
  exact sound_peekLoop sound.books idle persisted none

theorem Sound.scan_idle (sound : terminal.Sound) (busy : terminal.net.busy = true) :
    terminal.scan = .idle := by
  cases scan : terminal.scan with
  | idle => rfl
  | seek | write | save =>
      have quiet := sound.apart (by rw [scan]; rfl)
      rw [busy] at quiet
      cases quiet

theorem Sound.peekSeek (sound : terminal.Sound) (seeking : terminal.net = .peekSeek position batch) :
    Sound { terminal with
      filePosition := position % terminal.slots
      net := .peekRead position batch } := by
  have flushing := sound.flushing
  rw [seeking] at flushing
  obtain ⟨peeked, within⟩ := flushing
  have idle := sound.scan_idle (by rw [seeking]; rfl)
  have persisted := sound.settled (by rw [idle]; rfl) (by rw [seeking]; rfl)
  have still : Still terminal { terminal with
      filePosition := position % terminal.slots
      net := .peekRead position batch } :=
    ⟨rfl, rfl, rfl, rfl, rfl, rfl, rfl, List.Subset.refl _⟩
  exact .of_idle idle (sound.books.still still fun _ _ _ _ => trivial) (fun _ => persisted)
    ⟨rfl, peeked.follows still.follows rfl, within⟩

theorem Sound.peekRead (sound : terminal.Sound) (reading : terminal.net = .peekRead position batch)
    (stepped : terminal.netStep = some next) : next.Sound := by
  have flushing := sound.flushing
  rw [reading] at flushing
  obtain ⟨place, peeked, within⟩ := flushing
  have idle := sound.scan_idle (by rw [reading]; rfl)
  have persisted := sound.settled (by rw [idle]; rfl) (by rw [reading]; rfl)
  have usable : terminal.slots ≠ 0 := by
    have started := peeked.started
    have bounded := sound.books.bounded
    omega
  have still : Still terminal { terminal with filePosition := terminal.filePosition + 1 } :=
    ⟨rfl, rfl, rfl, rfl, rfl, rfl, rfl, List.Subset.refl _⟩
  have books := sound.books.still still fun _ _ entry => entry.spared
  simp only [netStep] at stepped
  rw [reading] at stepped
  dsimp only at stepped
  rw [readRecord_of_place sound.books usable place] at stepped
  cases stepped
  exact sound_peekLoop books idle persisted ((peeked.read within).follows still.follows rfl)

theorem sound_ackLoop (books : terminal.Books) (idle : terminal.scan = .idle)
    (usable : terminal.slots ≠ 0)
    (spared : ∀ position record, terminal.Entry position record → terminal.tail ≤ position →
      record ∈ terminal.uploaded ∨ seq < record.seq) : (terminal.ackLoop seq).Sound := by
  have still : ∀ net : NetTask, Still terminal { terminal with net } := fun _ =>
    ⟨rfl, rfl, rfl, rfl, rfl, rfl, rfl, List.Subset.refl _⟩
  simp only [ackLoop]
  split
  next more => exact .of_idle idle (books.still (still _) spared) nofun ⟨rfl, more⟩
  next => exact .of_idle idle (books.still (still _) fun _ _ _ _ => trivial) nofun ⟨rfl, usable⟩

theorem Scanning.rest {scan : ScanTask} {uploaded : List PunchRecord}
    (scanning : terminal.Scanning scan) (more : terminal.uploaded ⊆ uploaded) :
    Scanning { terminal with uploaded, net := .idle } scan := by
  have follows : Follows terminal { terminal with uploaded, net := .idle } :=
    ⟨rfl, le_rfl, le_rfl, le_rfl, fun _ _ _ => rfl⟩
  have rests : ∀ record, terminal.Pending record →
      Pending { terminal with uploaded, net := .idle } record := fun record pending =>
    ⟨pending.room, pending.intact, pending.below, pending.newest, nofun⟩
  cases scan with
  | idle => trivial
  | seek record index => exact ⟨scanning.1, rests record scanning.2⟩
  | write record => exact ⟨scanning.1, rests record scanning.2⟩
  | save record cursors =>
      obtain ⟨same, holding, entry⟩ := scanning
      exact ⟨same, holding, entry.follows follows (fun _ => trivial) fun gone => more (entry.kept gone)⟩

theorem Sound.answered (sound : terminal.Sound) (uploading : terminal.net = .upload batch)
    {answer : Bool} (idle : answer = true → terminal.scan = .idle) :
    (terminal.answered batch answer).Sound := by
  have flushing := sound.flushing
  rw [uploading] at flushing
  obtain ⟨usable, -⟩ := flushing
  have quiet : terminal.scan.busy = false → terminal.Persisted := fun unbusy =>
    sound.settled unbusy (by rw [uploading]; rfl)
  -- the round ends here: the scan task may be anywhere
  have ends : ∀ uploaded, terminal.uploaded ⊆ uploaded →
      Sound { terminal with uploaded, net := .idle } := by
    intro uploaded more
    have still : Still terminal { terminal with uploaded, net := .idle } :=
      ⟨rfl, rfl, rfl, rfl, rfl, rfl, rfl, more⟩
    refine ⟨sound.books.still still fun _ _ _ _ => trivial, fun _ => rfl, fun unbusy _ => quiet unbusy,
      ?_, trivial⟩
    exact sound.scanning.rest more
  cases answer with
  | false => exact ends terminal.uploaded (List.Subset.refl _)
  | true =>
      have more : terminal.uploaded ⊆ batch ++ terminal.uploaded := List.subset_append_right ..
      unfold Terminal.answered
      dsimp only
      split
      next => exact ends _ more
      next seq largest =>
        split
        next =>
          have still : Still terminal { terminal with uploaded := batch ++ terminal.uploaded } :=
            ⟨rfl, rfl, rfl, rfl, rfl, rfl, rfl, more⟩
          have books := sound.books.still still fun _ record entry live => by
            have spared := entry.spared live
            change Spares _ record terminal.net
            rw [uploading] at spared ⊢
            exact spared
          refine sound_ackLoop books (idle rfl) usable fun position record entry live => ?_
          have spared := entry.spared live
          change Spares _ record terminal.net at spared
          rw [uploading] at spared
          rcases spared with sent | newer
          · exact .inl (List.mem_append_left _ sent)
          · obtain ⟨top, member, rfl⟩ := List.mem_map.mp (List.max?_eq_some_iff.mp largest).1
            exact .inr (newer top member)
        next => exact ends _ more

theorem Sound.ackSeek {index : Nat} (sound : terminal.Sound)
    (seeking : terminal.net = .ackSeek seq index) :
    Sound { terminal with filePosition := index, net := .ackRead seq } := by
  have flushing := sound.flushing
  rw [seeking] at flushing
  obtain ⟨same, holding⟩ := flushing
  have idle := sound.scan_idle (by rw [seeking]; rfl)
  have still : Still terminal { terminal with filePosition := index, net := .ackRead seq } :=
    ⟨rfl, rfl, rfl, rfl, rfl, rfl, rfl, List.Subset.refl _⟩
  refine .of_idle idle (sound.books.still still fun _ record entry live => ?_) nofun ⟨same, holding⟩
  have spared := entry.spared live
  rw [seeking] at spared
  exact spared

theorem Sound.ackRead (sound : terminal.Sound) (reading : terminal.net = .ackRead seq)
    (stepped : terminal.netStep = some next) : next.Sound := by
  have flushing := sound.flushing
  rw [reading] at flushing
  obtain ⟨place, holding⟩ := flushing
  have idle := sound.scan_idle (by rw [reading]; rfl)
  have bounded := sound.books.bounded
  have usable : terminal.slots ≠ 0 := by omega
  have spared : ∀ {position record}, terminal.Entry position record → terminal.tail ≤ position →
      record ∈ terminal.uploaded ∨ seq < record.seq := by
    intro position record entry live
    have spared := entry.spared live
    rw [reading] at spared
    exact spared
  simp only [netStep] at stepped
  rw [reading] at stepped
  dsimp only at stepped
  rw [readRecord_of_place sound.books usable place] at stepped
  dsimp only at stepped
  split at stepped
  next newer =>
    cases stepped
    have still : Still terminal { terminal with
        filePosition := terminal.filePosition + 1
        net := .save terminal.cursors } :=
      ⟨rfl, rfl, rfl, rfl, rfl, rfl, rfl, List.Subset.refl _⟩
    exact .of_idle idle (sound.books.still still fun _ _ _ _ => trivial) nofun ⟨rfl, usable⟩
  next covered =>
    cases stepped
    have follows : Follows terminal { terminal with
        filePosition := terminal.filePosition + 1
        tail := terminal.tail + 1
        dropped := terminal.tail :: terminal.dropped } :=
      ⟨rfl, le_rfl, Nat.le_succ _, le_rfl, fun _ _ _ => rfl⟩
    have books := sound.books.unwritten follows rfl (Nat.succ_le_of_lt holding)
      (show terminal.head ≤ terminal.tail + 1 + terminal.slots by omega) le_rfl
      (fun position gone => by
        rcases List.mem_cons.mp gone with rfl | before
        · exact Nat.lt_succ_self _
        · exact Nat.lt_succ_of_lt (sound.books.behind position before))
      rfl (fun _ _ entry live => entry.spared (Nat.le_of_succ_le live))
      (fun position record entry gone => by
        rcases List.mem_cons.mp gone with rfl | before
        · -- the record just read, and not newer than the acknowledgement
          rw [entry.held le_rfl, entry.intact, Bool.true_and, decide_eq_true_eq] at covered
          exact (spared entry le_rfl).resolve_right covered
        · exact entry.kept before)
    refine sound_ackLoop books idle usable fun position record entry live => ?_
    have later := entry.spared live
    change Spares _ record terminal.net at later
    rw [reading] at later
    exact later

theorem Sound.netSave {cursors : Cursors} (sound : terminal.Sound)
    (saving : terminal.net = .save cursors) :
    Sound { terminal.saveCursors cursors with net := .idle } := by
  have flushing := sound.flushing
  rw [saving] at flushing
  obtain ⟨rfl, usable⟩ := flushing
  have idle := sound.scan_idle (by rw [saving]; rfl)
  have still : Still terminal { terminal.saveCursors terminal.cursors with net := .idle } :=
    ⟨rfl, rfl, rfl, rfl, rfl, rfl, rfl, List.Subset.refl _⟩
  have books := sound.books.still still fun _ _ _ _ => trivial
  exact .of_idle idle books (fun _ => books.persisted usable rfl) trivial

/-! ## Runs -/

theorem ScanTask.idle_of_not_busy {scan : ScanTask} (unbusy : scan.busy = false) : scan = .idle := by
  cases scan with
  | idle => rfl
  | seek | write | save => cases unbusy

theorem Sound.scanStep (sound : terminal.Sound) (stepped : terminal.scanStep = some next) :
    next.Sound := by
  simp only [Terminal.scanStep] at stepped
  split at stepped
  next => cases stepped
  next seeking =>
    cases stepped
    exact sound.scanSeek seeking
  next writing =>
    cases stepped
    exact sound.scanWrite writing
  next saving =>
    cases stepped
    exact sound.scanSave saving

theorem Sound.netStep (sound : terminal.Sound) (stepped : terminal.netStep = some next) :
    next.Sound := by
  cases net : terminal.net with
  | idle | upload =>
      simp only [Terminal.netStep, net] at stepped
      cases stepped
  | peekRead => exact sound.peekRead net stepped
  | ackRead => exact sound.ackRead net stepped
  | peekSeek | ackSeek | save =>
      simp only [Terminal.netStep] at stepped
      rw [net] at stepped
      cases stepped
      first
        | exact sound.peekSeek net
        | exact sound.ackSeek net
        | exact sound.netSave net

theorem Sound.step {event : Event} (sound : terminal.Sound) (exclusive : terminal.Exclusive event)
    (stepped : terminal.step event = some next) : next.Sound := by
  cases event with
  | append record =>
      simp only [Terminal.step, Option.ite_none_right_eq_some, Option.some.injEq] at stepped
      obtain ⟨⟨idle, admitted⟩, rfl⟩ := stepped
      exact sound.callAppend idle exclusive admitted
  | scan => exact sound.scanStep stepped
  | flush =>
      simp only [Terminal.step, Option.ite_none_right_eq_some, Option.some.injEq] at stepped
      obtain ⟨resting, rfl⟩ := stepped
      exact sound.flush (ScanTask.idle_of_not_busy exclusive) resting
  | net => exact sound.netStep stepped
  | answer answer =>
      simp only [Terminal.step] at stepped
      split at stepped
      next batch uploading =>
        cases stepped
        apply sound.answered uploading
        rintro rfl
        exact ScanTask.idle_of_not_busy exclusive
      next => cases stepped

theorem sound_boot (storage : Storage) (nextSeq : Nat)
    (below : ∀ record ∈ (RingBuffer.begin .none storage).contents storage,
      record.intact = true → record.seq.toNat < nextSeq) : (boot storage nextSeq).Sound := by
  have slots : (RingBuffer.begin .none storage).slots = (boot storage nextSeq).slots :=
    RingBuffer.begin_slots ..
  refine .of_idle rfl ⟨(RingBuffer.begin .none storage).ordered, ?_, le_rfl, ?_, ?_, ?_⟩
    (fun _ => rfl) trivial
  · rw [← slots]
    exact (RingBuffer.begin .none storage).bounded
  · intro position live within intact
    refine below _ ?_ intact
    rw [recordAt, ← slots]
    refine List.mem_map.mpr ⟨position, List.mem_range'_1.mpr ⟨live, ?_⟩, rfl⟩
    change position < (RingBuffer.begin .none storage).head at within
    omega
  · exact fun _ gone => (List.not_mem_nil gone).elim
  · exact fun _ member => (List.not_mem_nil member).elim

/-- In every run whose operations do not overlap, `ackThrough` drops only what was
uploaded and the cursors of an idle terminal survive a reboot. -/
theorem shared_safely_of_exclusive (storage : Storage) (nextSeq : Nat)
    (below : ∀ record ∈ (RingBuffer.begin .none storage).contents storage,
      record.intact = true → record.seq.toNat < nextSeq)
    (events : List Event) (terminal : Terminal)
    (exclusive : Along step Exclusive (boot storage nextSeq) events)
    (ran : run step (boot storage nextSeq) events = some terminal) :
    terminal.DropsOnlyUploaded ∧ (terminal.Idle → terminal.Persisted) := by
  have sound : terminal.Sound :=
    exclusive.invariant (fun _ _ _ sound exclusive stepped => sound.step exclusive stepped)
      (sound_boot storage nextSeq below) ran
  refine ⟨fun position record member gone => .inl ?_, fun idle => sound.settled idle.1 ?_⟩
  · exact (sound.books.entries _ member).kept gone
  · cases net : terminal.net with
    | idle | upload | peekSeek | peekRead => rfl
    | ackSeek | ackRead | save =>
        have unbusy := idle.2
        rw [net] at unbusy
        cases unbusy

open PowerCut.Terminal (punch)

/-- A new ring file, at the smallest size `LittleFsStorage` accepts. -/
def created : Storage := ⟨256 * recordBytes, fun _ => { punch 0 with slotNo := 0 }, none⟩

/-- Punch 1 is uploaded and punch 2 waits behind it.  The acknowledgement has dropped
punch 1 and sought punch 2 when `append` of punch 3 seeks the empty slot after it: the
acknowledgement reads zeros, takes them for a torn record and drops punch 2, and the
write lands one slot too far.  Both tasks then save the cursors, the older pair last. -/
def race : List Event :=
  [.append (punch 1), .scan, .scan, .scan, .flush, .net, .net,
    .append (punch 2), .scan, .scan, .scan, .answer true, .net, .net, .net,
    .append (punch 3), .scan, .net, .scan, .scan, .net]

theorem race_books :
    (run step (boot created 1) race).map (fun terminal =>
        (terminal.accepted, terminal.uploaded, terminal.evicted, terminal.dropped)) =
      some ([(2, (punch 3).withCrc), (1, (punch 2).withCrc), (0, (punch 1).withCrc)],
        [(punch 1).withCrc], [], [1, 0]) := by
  decide +kernel

theorem race_cursors :
    (run step (boot created 1) race).map (fun terminal =>
        ((RingBuffer.begin .none terminal.storage).cursors, terminal.cursors,
          terminal.scan, terminal.net)) =
      some (⟨2, 2⟩, ⟨3, 2⟩, .idle, .idle) := by
  decide +kernel

theorem race_drops_unsent :
    ∃ terminal, run step (boot created 1) race = some terminal ∧
      ¬ terminal.DropsOnlyUploaded ∧ terminal.Idle ∧ ¬ terminal.Persisted := by
  have books := race_books
  have cursors := race_cursors
  cases ran : run step (boot created 1) race with
  | none => rw [ran] at books; cases books
  | some terminal =>
      rw [ran, Option.map_some, Option.some.injEq] at books cursors
      simp only [Prod.mk.injEq] at books cursors
      obtain ⟨accepted, uploaded, evicted, dropped⟩ := books
      obtain ⟨saved, kept, scan, net⟩ := cursors
      refine ⟨terminal, rfl, fun only => ?_, ?_, fun same => ?_⟩
      · rcases only 1 (punch 2).withCrc (by simp [accepted]) (by simp [dropped]) with sent | gone
        · rw [uploaded, List.mem_singleton] at sent
          exact absurd (congrArg PunchRecord.seq sent) (by decide)
        · rw [evicted] at gone
          cases gone
      · rw [Idle, scan, net]
        exact ⟨rfl, rfl⟩
      · rw [Persisted, saved, kept] at same
        exact absurd same (by decide)

instance (terminal : Terminal) : (event : Event) → Decidable (terminal.Exclusive event)
  | .append _ => inferInstanceAs (Decidable (terminal.net.busy = false))
  | .flush => inferInstanceAs (Decidable (terminal.scan.busy = false))
  | .answer true => inferInstanceAs (Decidable (terminal.scan.busy = false))
  | .answer false => .isTrue trivial
  | .scan => .isTrue trivial
  | .net => .isTrue trivial

/-- The same punches, with the acknowledgement let through before the third. -/
def inTurn : List Event :=
  [.append (punch 1), .scan, .scan, .scan, .flush, .net, .net,
    .append (punch 2), .scan, .scan, .scan, .answer true, .net, .net, .net, .net, .net,
    .append (punch 3), .scan, .scan, .scan]

theorem shared_safely_in_turn :
    ∃ terminal, run step (boot created 1) inTurn = some terminal ∧ terminal.dropped = [0] ∧
      terminal.DropsOnlyUploaded ∧ (terminal.Idle → terminal.Persisted) := by
  have shows : (run step (boot created 1) inTurn).map Terminal.dropped = some [0] := by
    decide +kernel
  have exclusive : Along step Exclusive (boot created 1) inTurn := by decide +kernel
  obtain ⟨terminal, ran, dropped⟩ := Option.map_eq_some_iff.mp shows
  refine ⟨terminal, ran, dropped, shared_safely_of_exclusive created 1 ?_ inTurn terminal exclusive ran⟩
  intro record member
  cases member

end Terminal

end Presence.Firmware.TwoTasks
