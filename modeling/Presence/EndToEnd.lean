import Presence.Firmware.EventsJson
import Presence.Firmware.PowerCut
import Presence.Gateway.Device
import Presence.Gateway.IngestSpec

namespace Presence.EndToEnd

open Presence.Data Presence.Go Presence.Postgres Presence.Firmware Presence.Firmware.PowerCut
open Presence.Gateway

/-! # From the terminal's ring to `punch_event`

One terminal, the network and the gateway.  `flushEvents` of `main.cpp` is cut
where other things can happen in between: the request leaves, the gateway loads
the device row, the batch is ingested, the response arrives.  A request or a
response can be lost at any of these points, several can be on the way at once,
and punches, reboots and the traffic of other terminals come in between.
-/

structure Site where
  sortSlice : SortSlice
  keys : Keyring
  /-- What the terminal sends as `X-Device-Id`. -/
  deviceId : String
  device : Uuid
  named : uuidIn deviceId = some device

structure Flight where
  batch : List PunchRecord
  request : EventsRequest
  loaded : Option Device

structure System where
  terminal : Terminal
  db : Database
  flights : List Flight
  responses : List Int
  appended : List PunchRecord
  evicted : List PunchRecord

inductive Input where
  | punch (record : PunchRecord)
  | flush (requestId : String) (uptimeMs : UInt64)
  | loadDevice (flight : Nat)
  | ingest (flight : Nat) (now : Time)
  | loseRequest (flight : Nat)
  | receive (response : Nat)
  | loseResponse (response : Nat)
  | reboot
  | otherIngest (dev : Device) (request : EventsRequest) (now : Time)
  | enrol (person : List PersonRow) (credential : List CredentialRow)
      (deviceSlot : List DeviceSlotRow)

def maxBatch : Nat := 50

/-- The record an append to a full ring gives up. -/
def evictedByAppend (terminal : Terminal) : List PunchRecord :=
  if terminal.ring.full then terminal.contents.take 1 else []

namespace System

def punch (system : System) (record : PunchRecord) : Option System := do
  let terminal ← system.terminal.step (.complete (.append record))
  let (_, _, returned) := system.terminal.ring.append .none record
  return { system with
    terminal
    appended := if returned then record :: system.appended else system.appended
    evicted := evictedByAppend system.terminal ++ system.evicted }

def flush (system : System) (requestId : String) (uptimeMs : UInt64) : Option System :=
  let batch := system.terminal.ring.peek .none system.terminal.storage maxBatch
  if batch = [] then some system
  else
    match wireRequest batch ⟨requestId, uptimeMs, system.terminal.ring.depth⟩ with
    -- the gateway answers 400 to a body it cannot decode
    | none => some system
    | some request => some { system with flights := ⟨batch, request, none⟩ :: system.flights }

def loadDevice (site : Site) (system : System) (index : Nat) : Option System := do
  let flight ← system.flights[index]?
  match Gateway.loadDevice site.keys system.db site.deviceId with
  | .error _ => return { system with flights := system.flights.eraseIdx index }
  | .ok dev =>
      return { system with flights := system.flights.set index { flight with loaded := some dev } }

/-- The response is sent after the commit; an error answers 500 and the
transaction is rolled back. -/
def ingest (site : Site) (system : System) (index : Nat) (now : Time) : Option System := do
  let flight ← system.flights[index]?
  let dev ← flight.loaded
  match ingestBatch site.sortSlice system.db dev flight.request now with
  | .error _ => return { system with flights := system.flights.eraseIdx index }
  | .ok (db, response) =>
      return { system with
        db
        flights := system.flights.eraseIdx index
        responses := response.ackThrough :: system.responses }

def receive (system : System) (index : Nat) : Option System := do
  let ack ← system.responses[index]?
  let system := { system with responses := system.responses.eraseIdx index }
  if 0 < ack then
    let terminal ← system.terminal.step (.complete (.ackThrough (UInt64.ofNat ack.toNat)))
    return { system with terminal }
  else return system

def otherIngest (site : Site) (system : System) (dev : Device) (request : EventsRequest)
    (now : Time) : Option System :=
  if dev.id = site.device then none
  else
    match ingestBatch site.sortSlice system.db dev request now with
    | .error _ => some system
    | .ok (db, _) => some { system with db }

def step (site : Site) (system : System) : Input → Option System
  | .punch record => system.punch record
  | .flush requestId uptimeMs => system.flush requestId uptimeMs
  | .loadDevice flight => system.loadDevice site flight
  | .ingest flight now => system.ingest site flight now
  | .loseRequest flight => some { system with flights := system.flights.eraseIdx flight }
  | .receive response => system.receive response
  | .loseResponse response => some { system with responses := system.responses.eraseIdx response }
  | .reboot =>
      some { system with terminal := .boot system.terminal.storage system.terminal.nextSeq }
  | .otherIngest dev request now => system.otherIngest site dev request now
  | .enrol person credential deviceSlot =>
      some { system with db := { system.db with person, credential, deviceSlot } }

/-- A terminal out of the box, before a gateway whose row for it has acknowledged
nothing. -/
structure Started (site : Site) (system : System) : Prop where
  terminal : ∃ capacityBytes cells, system.terminal = .fresh capacityBytes cells
  wellFormed : system.db.WellFormed
  unacked : ∀ row ∈ system.db.device, row.id = site.device → row.lastAckSeq = 0
  flights : system.flights = []
  responses : system.responses = []
  appended : system.appended = []

/-- Where a punch of the ring has to be. -/
def Kept (site : Site) (system : System) (record : PunchRecord) : Prop :=
  record.withCrc ∈ system.terminal.contents ∨
    system.db.hasEvent site.device (toInt64 record.seq) = true ∨ record.withCrc ∈ system.evicted

end System

/-! ## The invariant

An acknowledgement is `Cleared` when every record of the ring it covers is
stored, and a batch is `Closed` when it holds every record of the ring up to each
of its own.  Both survive anything the terminal does later: what is added to the
ring is newer than every number spoken of so far.
-/

def Stored (site : Site) (db : Database) (record : PunchRecord) : Prop :=
  db.hasEvent site.device (toInt64 record.seq) = true

def Cleared (site : Site) (terminal : Terminal) (db : Database) (ack : Int) : Prop :=
  0 < ack → ack < terminal.nextSeq ∧
    ∀ record ∈ terminal.contents, (record.seq.toNat : Int) ≤ ack → Stored site db record

def Closed (terminal : Terminal) (batch : List PunchRecord) : Prop :=
  ∀ last ∈ batch, last.seq.toNat < terminal.nextSeq ∧
    ∀ record ∈ terminal.contents, record.seq.toNat ≤ last.seq.toNat → record ∈ batch

structure Flight.Valid (site : Site) (terminal : Terminal) (db : Database) (flight : Flight) :
    Prop where
  closed : Closed terminal flight.batch
  seqs : flight.request.events.map PunchEvent.seq =
    flight.batch.map fun record => toInt64 record.seq
  loaded : ∀ dev, flight.loaded = some dev →
    dev.id = site.device ∧ Cleared site terminal db dev.lastAckSeq

structure System.Safe (site : Site) (system : System) : Prop where
  sound : system.terminal.Sound
  wellFormed : system.db.WellFormed
  kept : ∀ record ∈ system.appended, system.Kept site record
  flights : ∀ flight ∈ system.flights, flight.Valid site system.terminal system.db
  rows : ∀ row ∈ system.db.device, row.id = site.device →
    Cleared site system.terminal system.db row.lastAckSeq
  responses : ∀ ack ∈ system.responses, Cleared site system.terminal system.db ack

/-- What every step does to the ring and the table, and all that the parts of
the invariant need to know about it. -/
structure Follows (before after : Terminal) (db later : Database) : Prop where
  nextSeq : before.nextSeq ≤ after.nextSeq
  contents : ∀ record ∈ after.contents,
    record ∈ before.contents ∨ before.nextSeq ≤ record.seq.toNat
  rows : db.punchEvent <+: later.punchEvent

variable {site : Site} {before after : Terminal} {db later : Database} {system next : System}

theorem Follows.table (terminal : Terminal) (rows : db.punchEvent <+: later.punchEvent) :
    Follows terminal terminal db later :=
  ⟨Nat.le_refl _, fun _ member => Or.inl member, rows⟩

theorem Follows.stored (follows : Follows before after db later) {record : PunchRecord}
    (stored : Stored site db record) : Stored site later record := by
  obtain ⟨row, member, key⟩ := List.any_eq_true.mp stored
  exact List.any_eq_true.mpr ⟨row, follows.rows.subset member, key⟩

theorem Cleared.follows {ack : Int} (cleared : Cleared site before db ack)
    (follows : Follows before after db later) : Cleared site after later ack := by
  intro positive
  obtain ⟨below, covered⟩ := cleared positive
  have grown : (before.nextSeq : Int) ≤ after.nextSeq := Int.ofNat_le.mpr follows.nextSeq
  refine ⟨Int.lt_of_lt_of_le below grown, fun record member within => ?_⟩
  rcases follows.contents record member with old | new
  · exact follows.stored (covered record old within)
  · have : (before.nextSeq : Int) ≤ record.seq.toNat := Int.ofNat_le.mpr new
    exact absurd (Int.lt_of_lt_of_le below (Int.le_trans this within)) (Int.lt_irrefl _)

theorem Closed.follows {batch : List PunchRecord} (closed : Closed before batch)
    (follows : Follows before after db later) : Closed after batch := by
  intro last member
  obtain ⟨below, covered⟩ := closed last member
  refine ⟨Nat.lt_of_lt_of_le below follows.nextSeq, fun record held within => ?_⟩
  rcases follows.contents record held with old | new
  · exact covered record old within
  · exact absurd (Nat.lt_of_lt_of_le below (Nat.le_trans new within)) (Nat.lt_irrefl _)

theorem Flight.Valid.follows {flight : Flight} (valid : flight.Valid site before db)
    (follows : Follows before after db later) : flight.Valid site after later where
  closed := valid.closed.follows follows
  seqs := valid.seqs
  loaded := fun dev found =>
    ⟨(valid.loaded dev found).1, (valid.loaded dev found).2.follows follows⟩

/-- The parts of the invariant that speak of numbers on the way, after a step
that put none of them on the way. -/
theorem System.Safe.follows (safe : System.Safe site system)
    (follows : Follows system.terminal next.terminal system.db next.db)
    (sound : next.terminal.Sound) (wellFormed : next.db.WellFormed)
    (kept : ∀ record ∈ next.appended, next.Kept site record)
    (flights : next.flights ⊆ system.flights) (device : next.db.device = system.db.device)
    (responses : next.responses ⊆ system.responses) : System.Safe site next where
  sound := sound
  wellFormed := wellFormed
  kept := kept
  flights := fun flight member => (safe.flights flight (flights member)).follows follows
  rows := fun row member named => (safe.rows row (device ▸ member) named).follows follows
  responses := fun ack member => (safe.responses ack (responses member)).follows follows

theorem System.Safe.kept_of_table (safe : System.Safe site system) (rows : system.db.punchEvent <+: later.punchEvent)
    {record : PunchRecord} (member : record ∈ system.appended) :
    System.Kept site { system with db := later } record := by
  rcases safe.kept record member with held | stored | evicted
  · exact Or.inl held
  · exact Or.inr (Or.inl ((Follows.table system.terminal rows).stored stored))
  · exact Or.inr (Or.inr evicted)

/-! ## What the terminal's operations do to its queue -/

theorem contents_of_append {record : PunchRecord}
    (stepped : before.step (.complete (.append record)) = some after) :
    before.nextSeq ≤ record.seq.toNat ∧ after.nextSeq = record.seq.toNat + 1 ∧
      ((before.ring.append .none record).2.2 = false ∧ after.contents = before.contents ∨
        (before.ring.append .none record).2.2 = true ∧
          after.contents =
            (if before.ring.full then before.contents.tail else before.contents) ++
              [record.withCrc]) := by
  simp only [Terminal.step, Option.ite_none_right_eq_some, Option.some.injEq] at stepped
  obtain ⟨admitted, rfl⟩ := stepped
  refine ⟨of_decide_eq_true admitted, rfl, ?_⟩
  by_cases usable : before.ring.slots ≠ 0
  · refine Or.inr ⟨?_, RingBuffer.contents_append usable record⟩
    rw [RingBuffer.append_none usable]
  · have idle : before.ring.append .none record = (before.ring, [], false) := by
      simp [RingBuffer.append, usable]
    refine Or.inl ⟨by rw [idle], ?_⟩
    simp only [Terminal.perform, idle]
    rfl

theorem mem_append_or_evicted {record older : PunchRecord}
    (stepped : before.step (.complete (.append record)) = some after)
    (member : older ∈ before.contents) :
    older ∈ after.contents ∨ older ∈ evictedByAppend before := by
  obtain ⟨-, -, ⟨-, same⟩ | ⟨-, pushed⟩⟩ := contents_of_append stepped
  · exact Or.inl (same ▸ member)
  · rw [pushed, List.mem_append, evictedByAppend]
    split
    · rw [← List.take_append_drop 1 before.contents, List.mem_append, List.drop_one] at member
      exact member.elim Or.inr fun kept => Or.inl (Or.inl kept)
    · exact Or.inl (Or.inl member)

theorem contents_of_ackThrough {seq : UInt64}
    (stepped : before.step (.complete (.ackThrough seq)) = some after) :
    after.nextSeq = before.nextSeq ∧
      after.contents = before.contents.dropWhile (RingBuffer.acked seq) := by
  simp only [Terminal.step, Option.ite_none_right_eq_some, Option.some.injEq] at stepped
  obtain ⟨_, rfl⟩ := stepped
  exact ⟨rfl, RingBuffer.contents_ackThrough ..⟩

/-- The acknowledgement of an ingested batch covers only what is stored: it is
the number the device row had, or the number of an event of the batch. -/
theorem Flight.Valid.cleared {flight : Flight} {dev : Device} {terminal : Terminal}
    {response : EventsResponse} (valid : flight.Valid site terminal db)
    (loaded : flight.loaded = some dev)
    (effect : BatchEffect db dev flight.request later response) :
    Cleared site terminal later response.ackThrough := by
  obtain ⟨sameId, cleared⟩ := valid.loaded dev loaded
  rcases effect.ackOrigin with same | ⟨ev, member, same⟩
  · rw [same]
    exact cleared.follows (.table terminal effect.rows)
  · intro _
    have sent : ev.seq ∈ flight.batch.map fun record => toInt64 record.seq :=
      valid.seqs ▸ List.mem_map_of_mem member
    obtain ⟨last, inBatch, lastSeq⟩ := List.mem_map.mp sent
    have number : ev.seq = last.seq.toNat := by
      rw [← lastSeq]
      exact toInt64_of_pos (lastSeq ▸ (effect.stored ev member).2.1)
    obtain ⟨below, covered⟩ := valid.closed last inBatch
    rw [same, number]
    refine ⟨Int.ofNat_lt.mpr below, fun record held within => ?_⟩
    have sentToo := List.mem_map_of_mem (f := fun record => toInt64 record.seq)
      (covered record held (Int.ofNat_le.mp within))
    rw [← valid.seqs] at sentToo
    obtain ⟨other, inRequest, otherSeq⟩ := List.mem_map.mp sentToo
    rw [Stored, ← sameId, ← otherSeq]
    exact (effect.stored other inRequest).2.2

/-! ## Every step keeps the invariant -/

namespace System

theorem Safe.punch {record : PunchRecord} (safe : Safe site system)
    (taken : system.punch record = some next) : Safe site next := by
  simp only [System.punch, Option.bind_eq_bind, Option.bind_eq_some_iff] at taken
  obtain ⟨terminal, stepped, returned⟩ := taken
  cases returned
  obtain ⟨admitted, spent, effect⟩ := contents_of_append stepped
  have spares : system.terminal.SparesFullRing (.complete (.append record)) := trivial
  have held : ∀ older ∈ terminal.contents,
      older ∈ system.terminal.contents ∨ older = record.withCrc := by
    intro older member
    rcases effect with ⟨-, same⟩ | ⟨-, pushed⟩
    · exact Or.inl (same ▸ member)
    · rw [pushed, List.mem_append, List.mem_singleton] at member
      refine member.imp_left fun kept => ?_
      split at kept
      · exact List.mem_of_mem_tail kept
      · exact kept
  refine safe.follows ⟨?_, ?_, List.prefix_rfl⟩ (safe.sound.step spares stepped) safe.wellFormed ?_
    (List.Subset.refl _) rfl (List.Subset.refl _)
  · exact spent ▸ Nat.le_succ_of_le admitted
  · intro older member
    apply (held older member).imp_right
    intro same
    subst same
    exact admitted
  · intro older member
    have new : older ∈ system.appended ∨
        older = record ∧ (system.terminal.ring.append .none record).2.2 = true := by
      simp only at member
      split at member
      · rename_i returned
        exact (List.mem_cons.mp member).symm.imp_right fun same => ⟨same, returned⟩
      · exact Or.inl member
    rcases new with earlier | ⟨rfl, returned⟩
    · rcases safe.kept older earlier with held | stored | evicted
      · exact (mem_append_or_evicted stepped held).imp_right fun evicted =>
          Or.inr (List.mem_append_left _ evicted)
      · exact Or.inr (Or.inl stored)
      · exact Or.inr (Or.inr (List.mem_append_right _ evicted))
    · apply Or.inl
      obtain ⟨refused, -⟩ | ⟨-, pushed⟩ := effect
      · simp [refused] at returned
      · simp [pushed]

theorem closed_peek (sound : system.terminal.Sound) :
    Closed system.terminal (system.terminal.ring.peek .none system.terminal.storage maxBatch) := by
  have whole : system.terminal.contents.filter PunchRecord.intact = system.terminal.contents :=
    List.filter_eq_self.mpr sound.intact
  have peeked : system.terminal.ring.peek .none system.terminal.storage maxBatch =
      system.terminal.contents.take maxBatch := by
    rw [RingBuffer.peek_eq, ← Terminal.contents, whole]
  rw [peeked]
  intro last taken
  refine ⟨sound.below last (List.mem_of_mem_take taken), fun record member within => ?_⟩
  exact Terminal.mem_take_of_le sound.sorted member taken (UInt64.le_iff_toNat_le.mpr within)

theorem Safe.flush {requestId : String} {uptimeMs : UInt64} (safe : Safe site system)
    (taken : system.flush requestId uptimeMs = some next) : Safe site next := by
  unfold System.flush at taken
  simp only at taken
  split at taken
  · cases taken
    exact safe
  · split at taken
    · cases taken
      exact safe
    · rename_i request decoded
      cases taken
      refine { safe with flights := List.forall_mem_cons.mpr ⟨?_, safe.flights⟩ }
      exact ⟨closed_peek safe.sound, wireRequest_seqs decoded, fun _ absent => by contradiction⟩

theorem Safe.dropFlight (safe : Safe site system) (index : Nat) :
    Safe site { system with flights := system.flights.eraseIdx index } :=
  { safe with
    flights := fun flight member => safe.flights flight (List.mem_of_mem_eraseIdx member) }

theorem Safe.dropResponse (safe : Safe site system) (index : Nat) :
    Safe site { system with responses := system.responses.eraseIdx index } :=
  { safe with
    responses := fun ack member => safe.responses ack (List.mem_of_mem_eraseIdx member) }

theorem Safe.loadDevice {index : Nat} (safe : Safe site system)
    (taken : system.loadDevice site index = some next) : Safe site next := by
  simp only [System.loadDevice, Option.bind_eq_bind, Option.bind_eq_some_iff] at taken
  obtain ⟨flight, found, returned⟩ := taken
  split at returned
  · cases returned
    exact safe.dropFlight index
  · rename_i dev loaded
    cases returned
    obtain ⟨row, member, named, sameId, sameAck⟩ := loadDevice_invert loaded
    have rowId : row.id = site.device := by
      rw [site.named] at named
      exact (Option.some.inj named).symm
    have valid := safe.flights flight (List.mem_of_getElem? found)
    refine { safe with flights := fun other inFlight => ?_ }
    rcases List.mem_or_eq_of_mem_set inFlight with old | rfl
    · exact safe.flights other old
    · refine ⟨valid.closed, valid.seqs, ?_⟩
      rintro _ ⟨⟩
      exact ⟨sameId.trans rowId, sameAck ▸ safe.rows row member rowId⟩

/-- A committed batch of any device, whose acknowledgement is in order if the
device is ours. -/
theorem Safe.committed {dev : Device} {request : EventsRequest} {response : EventsResponse}
    (safe : Safe site system) (effect : BatchEffect system.db dev request later response)
    (cleared : dev.id = site.device → Cleared site system.terminal later response.ackThrough) :
    Safe site { system with db := later } := by
  have follows : Follows system.terminal system.terminal system.db later :=
    .table system.terminal effect.rows
  refine ⟨safe.sound, effect.wellFormed safe.wellFormed,
    fun record member => safe.kept_of_table effect.rows member,
    fun flight member => (safe.flights flight member).follows follows, ?_,
    fun ack member => (safe.responses ack member).follows follows⟩
  intro row member named
  simp only [effect.device, List.mem_map] at member
  obtain ⟨old, inTable, rfl⟩ := member
  by_cases updated : old.id = dev.id
  · simp only [if_pos updated] at named ⊢
    rcases max_choice old.lastAckSeq response.ackThrough with same | same
    · rw [same]
      exact (safe.rows old inTable named).follows follows
    · rw [same]
      exact cleared (updated.symm.trans named)
  · rw [if_neg updated] at named ⊢
    exact (safe.rows old inTable named).follows follows

theorem Safe.ingest {index : Nat} {now : Time} (safe : Safe site system)
    (taken : system.ingest site index now = some next) : Safe site next := by
  simp only [System.ingest, Option.bind_eq_bind, Option.bind_eq_some_iff] at taken
  obtain ⟨flight, found, dev, loaded, returned⟩ := taken
  split at returned
  · cases returned
    exact safe.dropFlight index
  · rename_i db response ingested
    cases returned
    have effect := ingestBatch_effect ingested
    have valid := safe.flights flight (List.mem_of_getElem? found)
    have cleared := valid.cleared loaded effect
    have committed := (safe.committed effect fun _ => cleared).dropFlight index
    exact { committed with
      responses := List.forall_mem_cons.mpr ⟨cleared, committed.responses⟩ }

theorem Safe.receive {index : Nat} (safe : Safe site system)
    (taken : system.receive index = some next) : Safe site next := by
  simp only [System.receive, Option.bind_eq_bind, Option.bind_eq_some_iff] at taken
  obtain ⟨ack, found, returned⟩ := taken
  split at returned
  · rename_i positive
    obtain ⟨terminal, stepped, done⟩ := Option.bind_eq_some_iff.mp returned
    cases done
    obtain ⟨sameNext, dropped⟩ := contents_of_ackThrough stepped
    obtain ⟨-, covered⟩ := safe.responses ack (List.mem_of_getElem? found) positive
    have spares : system.terminal.SparesFullRing
        (.complete (.ackThrough (UInt64.ofNat ack.toNat))) := trivial
    refine safe.follows ⟨Nat.le_of_eq sameNext.symm, ?_, List.prefix_rfl⟩
      (safe.sound.step spares stepped) safe.wellFormed ?_ (List.Subset.refl _) rfl
      fun _ member => List.mem_of_mem_eraseIdx member
    · intro record member
      exact Or.inl ((List.dropWhile_sublist _).subset (dropped ▸ member))
    · intro record member
      rcases safe.kept record member with held | stored | evicted
      · have parts := held
        rw [← system.terminal.contents.takeWhile_append_dropWhile
          (p := RingBuffer.acked (UInt64.ofNat ack.toNat)), List.mem_append, ← dropped] at parts
        rcases parts with gone | kept
        · -- what `ackThrough` gives up is what the gateway has
          refine Or.inr (Or.inl (covered record.withCrc held ?_))
          have below : record.withCrc.seq ≤ UInt64.ofNat ack.toNat :=
            RingBuffer.acked_iff.mp (List.mem_takeWhile_imp gone) record.withCrc_intact
          have wrapped := UInt64.le_iff_toNat_le.mp below
          have := Nat.mod_le ack.toNat (2 ^ 64)
          simp only [UInt64.toNat_ofNat', PunchRecord.withCrc_seq] at *
          omega
        · exact Or.inl kept
      · exact Or.inr (Or.inl stored)
      · exact Or.inr (Or.inr evicted)
  · cases returned
    exact safe.dropResponse index

theorem Safe.otherIngest {dev : Device} {request : EventsRequest} {now : Time}
    (safe : Safe site system) (taken : system.otherIngest site dev request now = some next) :
    Safe site next := by
  simp only [System.otherIngest] at taken
  split at taken
  · contradiction
  · rename_i other
    split at taken
    · cases taken
      exact safe
    · rename_i db response ingested
      cases taken
      exact safe.committed (ingestBatch_effect ingested) fun ours => absurd ours other

theorem Safe.step {input : Input} (safe : Safe site system)
    (taken : system.step site input = some next) : Safe site next := by
  cases input with
  | punch record => exact safe.punch taken
  | flush requestId uptimeMs => exact safe.flush taken
  | loadDevice flight => exact safe.loadDevice taken
  | ingest flight now => exact safe.ingest taken
  | loseRequest flight =>
      cases taken
      exact safe.dropFlight flight
  | receive response => exact safe.receive taken
  | loseResponse response =>
      cases taken
      exact safe.dropResponse response
  | reboot =>
      cases taken
      rw [Terminal.boot_of_settled _ safe.sound.settled]
      exact safe
  | otherIngest dev request now => exact safe.otherIngest taken
  | enrol person credential deviceSlot =>
      cases taken
      exact safe.follows (.table system.terminal List.prefix_rfl) safe.sound
        ⟨safe.wellFormed.keys, safe.wellFormed.uuids⟩
        (fun record member => safe.kept_of_table List.prefix_rfl member)
        (List.Subset.refl _) rfl (List.Subset.refl _)

theorem Started.safe (started : Started site system) : Safe site system := by
  obtain ⟨capacityBytes, cells, booted⟩ := started.terminal
  refine ⟨booted ▸ Terminal.sound_fresh capacityBytes cells, started.wellFormed, ?_, ?_, ?_, ?_⟩
  · simp [started.appended]
  · simp [started.flights]
  · intro row member named positive
    rw [started.unacked row member named] at positive
    exact absurd positive (Int.lt_irrefl 0)
  · simp [started.responses]

theorem punchEvent_prefix_of_step {input : Input} (taken : system.step site input = some next) :
    system.db.punchEvent <+: next.db.punchEvent := by
  cases input with
  | punch record =>
      simp only [step, System.punch, Option.bind_eq_bind, Option.bind_eq_some_iff] at taken
      obtain ⟨terminal, -, returned⟩ := taken
      cases returned
      exact List.prefix_rfl
  | flush requestId uptimeMs =>
      simp only [step, System.flush] at taken
      repeat' split at taken
      all_goals cases taken; exact List.prefix_rfl
  | loadDevice flight =>
      simp only [step, System.loadDevice, Option.bind_eq_bind, Option.bind_eq_some_iff] at taken
      obtain ⟨found, -, returned⟩ := taken
      split at returned <;> cases returned <;> exact List.prefix_rfl
  | ingest flight now =>
      simp only [step, System.ingest, Option.bind_eq_bind, Option.bind_eq_some_iff] at taken
      obtain ⟨found, -, dev, -, returned⟩ := taken
      split at returned
      · cases returned
        exact List.prefix_rfl
      · rename_i ingested
        cases returned
        exact (ingestBatch_effect ingested).rows
  | receive response =>
      simp only [step, System.receive, Option.bind_eq_bind, Option.bind_eq_some_iff] at taken
      obtain ⟨ack, -, returned⟩ := taken
      split at returned
      · obtain ⟨terminal, -, done⟩ := Option.bind_eq_some_iff.mp returned
        cases done
        exact List.prefix_rfl
      · cases returned
        exact List.prefix_rfl
  | otherIngest dev request now =>
      simp only [step, System.otherIngest] at taken
      split at taken
      · contradiction
      · split at taken
        · cases taken
          exact List.prefix_rfl
        · rename_i ingested
          cases taken
          exact (ingestBatch_effect ingested).rows
  | loseRequest | loseResponse | reboot | enrol =>
      cases taken
      exact List.prefix_rfl

/-- Whatever happens between the terminal and the gateway, a punch taken into
the ring is in the ring, stored, or was evicted by a full ring; no sequence
number is stored twice, and what is stored stays as it is. -/
theorem no_loss_no_duplication (site : Site) (start middle final : System)
    (first second : List Input) (started : Started site start)
    (reached : run (step site) start first = some middle)
    (continued : run (step site) middle second = some final) :
    (∀ record ∈ final.appended, final.Kept site record) ∧ final.db.keys.Nodup ∧
      middle.db.punchEvent <+: final.db.punchEvent := by
  have preserved : ∀ system input next, Safe site system →
      system.step site input = some next → Safe site next := fun _ _ _ safe taken => safe.step taken
  have safeMiddle := run_invariant preserved started.safe reached
  have safeFinal := run_invariant preserved safeMiddle continued
  exact ⟨safeFinal.kept, safeFinal.wellFormed.keys,
    run_relation (fun before after => before.db.punchEvent <+: after.db.punchEvent)
      (fun _ => List.prefix_rfl) List.IsPrefix.trans
      (fun _ _ _ safe taken => ⟨safe.step taken, punchEvent_prefix_of_step taken⟩)
      safeMiddle continued⟩

/-! A terminal with a ring of two, a punch flushed and its response lost, then a
reboot, the same punch flushed again and acknowledged. -/

def samplePunch : PunchRecord where
  seq := 1
  capturedEpochMs := 1709210096789
  capturedUptimeMs := 1000
  uuid := .replicate 16 7
  slotNo := 7
  matchScore := 90
  credentialKind := 0
  timeSource := 0
  directionHint := 1
  reserved := .replicate 9 0
  crc := 0

def sampleRow : DeviceRow where
  id := 1
  orgId := 2
  mode := .entry
  state := .active
  keyVersion := 1
  secretEnc := some [1]
  secretNonce := some []
  secretKeyId := some "k1"
  prevKeyVersion := none
  prevSecretEnc := none
  prevSecretNonce := none
  prevSecretKeyId := none
  lastAckSeq := 0
  lastBufferDepth := none

def sampleSite : Site where
  sortSlice := sortBySeq
  keys := fun sealedBytes _ _ _ => some sealedBytes
  deviceId := "00000000-0000-0000-0000-000000000001"
  device := 1
  named := by decide

def sampleStart : System where
  terminal := .fresh 120 fun _ => samplePunch
  db := { emptyDatabase with device := [sampleRow] }
  flights := []
  responses := []
  appended := []
  evicted := []

def sampleRetry : List Input :=
  [.punch samplePunch, .flush "0a1b2c3d-0000-4000-8000-000000000001" 2000, .loadDevice 0,
    .ingest 0 ⟨1709210097000 * millisecond, 0⟩, .loseResponse 0, .reboot]

def sampleAck : List Input :=
  [.flush "0a1b2c3d-0000-4000-8000-000000000002" 3000, .loadDevice 0,
    .ingest 0 ⟨1709210098000 * millisecond, 0⟩, .receive 0]

theorem sampleRetry_no_loss_no_duplication :
    ∃ middle final, run (step sampleSite) sampleStart sampleRetry = some middle ∧
      run (step sampleSite) middle sampleAck = some final ∧
      (final.appended.length = 1 ∧ final.terminal.ring.depth = 0 ∧ final.db.keys = [(1, 1)]) ∧
      (∀ record ∈ final.appended, final.Kept sampleSite record) ∧ final.db.keys.Nodup ∧
      middle.db.punchEvent <+: final.db.punchEvent := by
  have ran : ((run (step sampleSite) sampleStart sampleRetry).bind fun middle =>
      (run (step sampleSite) middle sampleAck).map fun final =>
        (final.appended.length, final.terminal.ring.depth, final.db.keys)) =
      some (1, 0, [(1, 1)]) := by decide +kernel
  obtain ⟨middle, reached, rest⟩ := Option.bind_eq_some_iff.mp ran
  obtain ⟨final, continued, same⟩ := Option.map_eq_some_iff.mp rest
  simp only [Prod.mk.injEq] at same
  refine ⟨middle, final, reached, continued, same, ?_⟩
  refine no_loss_no_duplication sampleSite sampleStart _ _ sampleRetry sampleAck ?_ reached continued
  refine ⟨⟨120, fun _ => samplePunch, rfl⟩, ⟨List.nodup_nil, List.nodup_nil⟩, ?_, rfl, rfl, rfl⟩
  intro row member _
  rw [List.mem_singleton.mp member]
  rfl

end System

end Presence.EndToEnd
