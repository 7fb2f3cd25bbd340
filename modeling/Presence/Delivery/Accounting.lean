import Mathlib.Data.List.Count
import Presence.Data.Exclusive
import Presence.Delivery.Stranded

namespace Presence.Delivery

open Presence.Data Presence.Postgres

/-! # Who holds a row, and how often it was sent

A worker works from a copy of the row taken when it locked it, and writes the
number of attempts back from that copy.  The copy is good because nobody else
touches the row in between: until the commit it is locked, afterwards it is
`delivering`.  `Copy` is that fact, and everything else rests on it.
-/

structure Copy (outbox : Outbox) (status : OutboxStatus) (claimedAt : Int) (claimed : ClaimedRow)
    (row : OutboxRow) : Prop where
  found : outbox claimed.id = some row
  status : row.status = status
  attempts : row.attempts = claimed.attempts
  due : row.nextAttemptAt ≤ claimedAt

/-- A claimed row that was not sent since it was claimed. -/
def Unsent (outbox : Outbox) (posts : Uuid → Nat) (status : OutboxStatus) (claimedAt : Int)
    (claimed : ClaimedRow) : Prop :=
  posts claimed.id ≤ claimed.attempts ∧ ∃ row, Copy outbox status claimedAt claimed row

def Phase.Valid (outbox : Outbox) (posts : Uuid → Nat) : Phase → Prop
  | .idle | .stopped => True
  | .claiming claimedAt rows => ∀ claimed ∈ rows, Unsent outbox posts .pending claimedAt claimed
  | .delivering claimedAt rows =>
      ∀ claimed ∈ rows, Unsent outbox posts .delivering claimedAt claimed
  | .settling claimedAt claimed _ rest =>
      (∃ row, Copy outbox .delivering claimedAt claimed row) ∧
        ∀ waiting ∈ rest, Unsent outbox posts .delivering claimedAt waiting

def OutboxRow.Accounted (posts : Nat) (row : OutboxRow) : Prop :=
  match row.status with
  | .pending => row.attempts < maxAttempts ∧ posts ≤ row.attempts
  | .delivering | .delivered => row.attempts < maxAttempts ∧ posts ≤ row.attempts + 1
  | .dead => row.attempts = maxAttempts ∧ posts ≤ row.attempts

theorem OutboxRow.Accounted.bounds {posts : Nat} {row : OutboxRow} (good : row.Accounted posts) :
    posts ≤ row.attempts + 1 ∧ posts ≤ maxAttempts ∧
      (row.status = .pending → row.attempts < maxAttempts) ∧
      (row.status = .dead → row.attempts = maxAttempts) := by
  cases status : row.status with
  | pending | delivering | delivered =>
      simp only [OutboxRow.Accounted, status] at good
      refine ⟨by omega, by omega, fun _ => good.1, fun dead => by contradiction⟩
  | dead =>
      simp only [OutboxRow.Accounted, status] at good
      exact ⟨by omega, by omega, fun pending => by contradiction, fun _ => good.1⟩

section Frame

variable {outbox outboxAfter : Outbox} {posts postsAfter : Uuid → Nat}

theorem Copy.frame {status : OutboxStatus} {claimedAt : Int} {claimed : ClaimedRow}
    {row : OutboxRow} (copy : Copy outbox status claimedAt claimed row)
    (same : outboxAfter claimed.id = outbox claimed.id) :
    Copy outboxAfter status claimedAt claimed row :=
  { copy with found := same.trans copy.found }

theorem Unsent.frame {status : OutboxStatus} {claimedAt : Int} {claimed : ClaimedRow}
    (unsent : Unsent outbox posts status claimedAt claimed)
    (same : outboxAfter claimed.id = outbox claimed.id ∧
      postsAfter claimed.id = posts claimed.id) :
    Unsent outboxAfter postsAfter status claimedAt claimed := by
  obtain ⟨few, row, copy⟩ := unsent
  exact ⟨same.2 ▸ few, row, copy.frame same.1⟩

/-- A worker only depends on the rows it holds. -/
theorem Phase.Valid.frame {phase : Phase} (valid : phase.Valid outbox posts)
    (same : ∀ id ∈ phase.ids, outboxAfter id = outbox id ∧ postsAfter id = posts id) :
    phase.Valid outboxAfter postsAfter := by
  have heldSame : ∀ claimed ∈ phase.held, outboxAfter claimed.id = outbox claimed.id ∧
      postsAfter claimed.id = posts claimed.id :=
    fun claimed member => same claimed.id (List.mem_map_of_mem member)
  cases phase with
  | idle | stopped => trivial
  | claiming claimedAt rows | delivering claimedAt rows =>
      exact fun claimed member => (valid claimed member).frame (heldSame claimed member)
  | settling claimedAt claimed answer rest =>
      obtain ⟨⟨row, copy⟩, waiting⟩ := valid
      refine ⟨⟨row, copy.frame (heldSame claimed List.mem_cons_self).1⟩, fun other member => ?_⟩
      exact (waiting other member).frame (heldSame other (List.mem_cons_of_mem claimed member))

theorem Phase.valid_of_empty {phase : Phase} (empty : phase.held = []) :
    phase.Valid outbox posts := by
  cases phase with
  | idle | stopped => trivial
  | claiming claimedAt rows | delivering claimedAt rows =>
      have none : rows = [] := empty
      simp [Phase.Valid, none]
  | settling claimedAt claimed answer rest => contradiction

end Frame

namespace System

variable {workers : Nat} {system next : System workers}

def posts (system : System workers) (id : Uuid) : Nat :=
  system.sent.countP fun sent => sent.post.eventId == id

def holding (system : System workers) (index : Fin workers) : List Uuid :=
  (system.worker index).phase.ids

structure Accounted (system : System workers) : Prop where
  exclusive : Exclusive system.holding
  phases : ∀ index, (system.worker index).phase.Valid system.outbox system.posts
  rows : ∀ id row, system.outbox id = some row → row.Accounted (system.posts id)
  absent : ∀ id, system.outbox id = none → system.posts id = 0
  due : ∀ sent ∈ system.sent, ∃ moment, sent.nextAttemptAt = some moment ∧ moment ≤ sent.claimedAt

theorem holding_update {index : Fin workers} {worker : Worker}
    (moved : next.worker = Function.update system.worker index worker) :
    next.holding = Function.update system.holding index worker.phase.ids := by
  funext other
  by_cases same : other = index
  · subst same
    simp [holding, moved]
  · simp [holding, moved, same]

/-- One worker moves on, and touches only rows it held. -/
theorem Accounted.move (accounted : system.Accounted) {index : Fin workers} {worker : Worker}
    (moved : next.worker = Function.update system.worker index worker)
    (kept : worker.phase.ids.Sublist (system.holding index))
    (valid : worker.phase.Valid next.outbox next.posts)
    (frame : ∀ id, id ∉ system.holding index →
      next.outbox id = system.outbox id ∧ next.posts id = system.posts id)
    (rows : ∀ id ∈ system.holding index,
      ∃ row, next.outbox id = some row ∧ row.Accounted (next.posts id))
    (due : ∀ sent ∈ next.sent,
      ∃ moment, sent.nextAttemptAt = some moment ∧ moment ≤ sent.claimedAt) :
    next.Accounted := by
  refine ⟨?_, fun other => ?_, fun id row found => ?_, fun id missing => ?_, due⟩
  · rw [holding_update moved]
    exact accounted.exclusive.release kept
  · by_cases same : other = index
    · subst same
      simpa [moved] using valid
    · have phase : (next.worker other).phase = (system.worker other).phase := by
        simp [moved, same]
      rw [phase]
      refine (accounted.phases other).frame fun id member => frame id fun mine => ?_
      exact same (accounted.exclusive.apart member mine)
  · by_cases mine : id ∈ system.holding index
    · obtain ⟨row', present, good⟩ := rows id mine
      rw [found] at present
      cases present
      exact good
    · obtain ⟨sameRow, samePosts⟩ := frame id mine
      rw [samePosts]
      exact accounted.rows id row (sameRow ▸ found)
  · by_cases mine : id ∈ system.holding index
    · obtain ⟨row, present, -⟩ := rows id mine
      rw [missing] at present
      contradiction
    · obtain ⟨sameRow, samePosts⟩ := frame id mine
      rw [samePosts]
      exact accounted.absent id (sameRow ▸ missing)

theorem Phase.Valid.copy {outbox : Outbox} {posts : Uuid → Nat} {phase : Phase}
    (valid : phase.Valid outbox posts) {claimed : ClaimedRow} (member : claimed ∈ phase.held) :
    ∃ row, outbox claimed.id = some row ∧
      (claimed.id ∈ phase.locks ∧ row.status = .pending ∨ row.status = .delivering) := by
  cases phase with
  | idle | stopped => simp [Phase.held] at member
  | claiming claimedAt rows =>
      obtain ⟨-, row, copy⟩ := valid claimed member
      exact ⟨row, copy.found, Or.inl ⟨List.mem_map_of_mem member, copy.status⟩⟩
  | delivering claimedAt rows =>
      obtain ⟨-, row, copy⟩ := valid claimed member
      exact ⟨row, copy.found, Or.inr copy.status⟩
  | settling claimedAt first answer rest =>
      rcases List.mem_cons.mp member with rfl | waiting
      · obtain ⟨⟨row, copy⟩, -⟩ := valid
        exact ⟨row, copy.found, Or.inr copy.status⟩
      · obtain ⟨-, row, copy⟩ := valid.2 claimed waiting
        exact ⟨row, copy.found, Or.inr copy.status⟩

/-- A held row is in the table, pending and locked or in `delivering`. -/
theorem Accounted.held_row (accounted : system.Accounted) {index : Fin workers} {id : Uuid}
    (member : id ∈ system.holding index) :
    ∃ row, system.outbox id = some row ∧ row.Accounted (system.posts id) ∧
      (id ∈ (system.worker index).phase.locks ∧ row.status = .pending ∨
        row.status = .delivering) := by
  obtain ⟨claimed, held, rfl⟩ := List.mem_map.mp member
  obtain ⟨row, found, guarded⟩ := Phase.Valid.copy (accounted.phases index) held
  exact ⟨row, found, accounted.rows _ row found, guarded⟩

/-- A worker lets go of some rows and the table stays as it is. -/
theorem Accounted.release (accounted : system.Accounted) {index : Fin workers} {worker : Worker}
    (kept : worker.phase.ids.Sublist (system.holding index))
    (valid : worker.phase.Valid system.outbox system.posts) :
    (system.setWorker index worker).Accounted :=
  accounted.move rfl kept valid (fun _ _ => ⟨rfl, rfl⟩)
    (fun _ member => let ⟨row, found, good, _⟩ := accounted.held_row member; ⟨row, found, good⟩)
    accounted.due

theorem Accounted.inserted (accounted : system.Accounted) {id : Uuid} {row : OutboxRow}
    (fresh : system.outbox id = none) (pending : row.status = .pending)
    (untried : row.attempts = 0) :
    Accounted { system with outbox := Function.update system.outbox id (some row) } := by
  refine ⟨accounted.exclusive, fun index => ?_, fun other found present => ?_,
    fun other missing => ?_, accounted.due⟩
  · refine (accounted.phases index).frame fun other member => ⟨?_, rfl⟩
    obtain ⟨held, present, -⟩ := accounted.held_row member
    have different : other ≠ id := by
      intro same
      subst same
      rw [fresh] at present
      contradiction
    simp [different]
  · by_cases same : other = id
    · subst same
      simp only [Function.update_self, Option.some.injEq] at present
      subst present
      have none := accounted.absent other fresh
      simp only [OutboxRow.Accounted, pending, untried]
      exact ⟨by decide, Nat.le_of_eq none⟩
    · simp only [Function.update_of_ne same] at present
      exact accounted.rows other found present
  · by_cases same : other = id
    · subst same
      simp at missing
    · simp only [Function.update_of_ne same] at missing
      exact accounted.absent other missing

theorem eligible_iff {now : Int} {id : Uuid} (eligible : system.eligible now id = true) :
    (∃ row, system.outbox id = some row ∧ row.status = .pending ∧ row.nextAttemptAt ≤ now) ∧
      ∀ other, id ∉ (system.worker other).phase.locks := by
  simp only [System.eligible, Bool.and_eq_true, decide_eq_true_eq] at eligible
  obtain ⟨due, unlocked⟩ := eligible
  refine ⟨?_, unlocked⟩
  split at due
  · contradiction
  · rename_i row found
    exact ⟨row, found, by simpa using due⟩

theorem ids_claimedRow_sublist (outbox : Outbox) (ids : List Uuid) :
    ((ids.filterMap (claimedRow outbox)).map ClaimedRow.id).Sublist ids := by
  induction ids with
  | nil => exact .slnil
  | cons id ids ih =>
      cases found : outbox id with
      | none =>
          rw [List.filterMap_cons_none (by simp [claimedRow, found])]
          exact ih.cons id
      | some row =>
          have read : claimedRow outbox id =
              some ⟨id, row.eventType, row.payload, row.attempts⟩ := by
            simp [claimedRow, found]
          rw [List.filterMap_cons_some read]
          exact ih.cons_cons id

theorem Accounted.selected (accounted : system.Accounted) {index : Fin workers} {now : Int}
    {ids : List Uuid} (nodup : ids.Nodup)
    (eligible : ∀ id ∈ ids, system.eligible now id = true) :
    (system.setPhase index
      (.claiming now (ids.filterMap (claimedRow system.outbox)))).Accounted := by
  have sub := ids_claimedRow_sublist system.outbox ids
  have moved : (system.setPhase index (.claiming now (ids.filterMap
      (claimedRow system.outbox)))).worker = Function.update system.worker index
        ⟨.claiming now (ids.filterMap (claimedRow system.outbox)),
          (system.worker index).cancelled⟩ := rfl
  refine ⟨?_, fun other => ?_, accounted.rows, accounted.absent, accounted.due⟩
  · rw [holding_update moved]
    refine accounted.exclusive.update (nodup.sublist sub) fun id member other held => ?_
    obtain ⟨⟨row, found, pending, -⟩, unlocked⟩ := eligible_iff (eligible id (sub.subset member))
    obtain ⟨row', foundToo, -, ⟨locked, -⟩ | delivering⟩ := accounted.held_row held
    · exact absurd locked (unlocked other)
    · rw [found] at foundToo
      cases foundToo
      rw [pending] at delivering
      contradiction
  · by_cases same : other = index
    · subst same
      rw [moved, Function.update_self]
      intro claimed member
      obtain ⟨id, chosen, read⟩ := List.mem_filterMap.mp member
      obtain ⟨⟨row, found, pending, due⟩, -⟩ := eligible_iff (eligible id chosen)
      simp only [claimedRow, found, Option.map_some, Option.some.injEq] at read
      subst read
      have good := accounted.rows id row found
      simp only [OutboxRow.Accounted, pending] at good
      exact ⟨good.2, row, found, pending, rfl, due⟩
    · rw [moved, Function.update_of_ne same]
      exact accounted.phases other

/-- The committed claim: the rows turn from `pending` to `delivering`, whether or
not the worker goes on with them. -/
theorem Accounted.committed (accounted : system.Accounted) {index : Fin workers} {claimedAt : Int}
    {rows : List ClaimedRow} {phase : Phase}
    (claiming : (system.worker index).phase = .claiming claimedAt rows)
    (goes : phase = .ofBatch claimedAt rows ∨ phase = .idle) :
    Accounted { system.setPhase index phase with
      outbox := markDelivering system.outbox rows
      claims := system.claims ++ rows.map ClaimedRow.id } := by
  have held : system.holding index = rows.map ClaimedRow.id := by
    simp [holding, Phase.ids, claiming, Phase.held]
  have locked : ∀ claimed ∈ rows,
      Unsent system.outbox system.posts .pending claimedAt claimed := by
    have valid := accounted.phases index
    rwa [claiming] at valid
  have taken : ∀ claimed ∈ rows, Unsent (markDelivering system.outbox rows) system.posts
      .delivering claimedAt claimed := by
    intro claimed member
    obtain ⟨few, row, copy⟩ := locked claimed member
    refine ⟨few, { row with status := .delivering }, ?_, rfl, copy.attempts, copy.due⟩
    simp [markDelivering, copy.found, List.mem_map_of_mem member]
  refine accounted.move rfl ?_ ?_ (fun id outside => ⟨?_, rfl⟩) ?_ accounted.due
  · rcases goes with rfl | rfl
    · simp [held, Phase.ids]
    · exact List.nil_sublist _
  · rcases goes with rfl | rfl
    · cases rows with
      | nil => trivial
      | cons first rest => exact taken
    · trivial
  · rw [held] at outside
    simp [markDelivering, outside]
  · intro id member
    rw [held] at member
    obtain ⟨claimed, inBatch, rfl⟩ := List.mem_map.mp member
    obtain ⟨few, row, copy⟩ := taken claimed inBatch
    obtain ⟨-, old, pending⟩ := locked claimed inBatch
    have good := accounted.rows _ old pending.found
    simp only [OutboxRow.Accounted, pending.status, pending.attempts] at good
    refine ⟨row, copy.found, ?_⟩
    simp only [OutboxRow.Accounted, copy.status, copy.attempts]
    exact ⟨good.1, Nat.le_succ_of_le few⟩

/-- The rows of a batch are different ones. -/
theorem Accounted.head_not_waiting (accounted : system.Accounted) {index : Fin workers}
    {claimed : ClaimedRow} {rest : List ClaimedRow}
    (held : system.holding index = claimed.id :: rest.map ClaimedRow.id) {waiting : ClaimedRow}
    (member : waiting ∈ rest) : waiting.id ≠ claimed.id := by
  have nodup := accounted.exclusive.nodup index
  rw [held, List.nodup_cons] at nodup
  intro same
  exact nodup.1 (same ▸ List.mem_map_of_mem member)

theorem Accounted.posted (accounted : system.Accounted) {index : Fin workers} {claimedAt : Int}
    {answer : Answer} {claimed : ClaimedRow} {rest : List ClaimedRow} {sent : Sent}
    (delivering : (system.worker index).phase = .delivering claimedAt (claimed :: rest))
    (named : sent.post.eventId = claimed.id) (claim : sent.claimedAt = claimedAt)
    (due : sent.nextAttemptAt = (system.outbox claimed.id).map OutboxRow.nextAttemptAt) :
    Accounted { system.setPhase index (.settling claimedAt claimed answer rest) with
      sent := if answer.posted then system.sent ++ [sent] else system.sent } := by
  have held : system.holding index = claimed.id :: rest.map ClaimedRow.id := by
    simp [holding, Phase.ids, delivering, Phase.held]
  have valid := accounted.phases index
  rw [delivering] at valid
  obtain ⟨few, row, copy⟩ := valid claimed List.mem_cons_self
  have counted : ∀ id, posts { system.setPhase index (.settling claimedAt claimed answer rest) with
      sent := if answer.posted then system.sent ++ [sent] else system.sent } id =
        system.posts id + if answer.posted ∧ claimed.id = id then 1 else 0 := by
    intro id
    by_cases posted : answer.posted <;>
      simp [posts, posted, List.countP_append, List.countP_cons, named]
  have others : ∀ id, id ≠ claimed.id →
      posts { system.setPhase index (.settling claimedAt claimed answer rest) with
        sent := if answer.posted then system.sent ++ [sent] else system.sent } id =
          system.posts id := by
    intro id different
    rw [counted, if_neg fun both => different both.2.symm]
    rfl
  refine accounted.move rfl ?_ ⟨⟨row, copy⟩, fun waiting member => ?_⟩ (fun id outside => ⟨rfl, ?_⟩)
    (fun id member => ?_) fun other member => ?_
  · simp [held, Phase.ids, Phase.held]
  · exact (valid waiting (List.mem_cons_of_mem claimed member)).frame
      ⟨rfl, others waiting.id (accounted.head_not_waiting held member)⟩
  · apply others id
    intro same
    subst same
    exact outside (by simp [held])
  · obtain ⟨found, present, good, -⟩ := accounted.held_row member
    refine ⟨found, present, ?_⟩
    by_cases same : id = claimed.id
    · subst same
      rw [copy.found] at present
      cases present
      rw [counted]
      simp only [OutboxRow.Accounted, copy.status, copy.attempts] at good ⊢
      refine ⟨good.1, ?_⟩
      split <;> omega
    · rw [others id same]
      exact good
  · simp only at member
    split at member
    · rw [List.mem_append, List.mem_singleton] at member
      rcases member with old | rfl
      · exact accounted.due other old
      · exact ⟨row.nextAttemptAt, by rw [due, copy.found]; rfl, by rw [claim]; exact copy.due⟩
    · exact accounted.due other member

theorem accounted_settled {claimed : ClaimedRow} {answer : Answer} {now : Int} {row : OutboxRow}
    {posts : Nat} (good : row.Accounted posts) (delivering : row.status = .delivering)
    (attempts : row.attempts = claimed.attempts) :
    (settled claimed answer now row).Accounted posts := by
  simp only [OutboxRow.Accounted, delivering, attempts] at good
  unfold Delivery.settled
  split
  · simp only [OutboxRow.Accounted, attempts]
    exact good
  · simp only
    split
    · simp only [OutboxRow.Accounted]
      omega
    · simp only [OutboxRow.Accounted]
      omega

theorem Accounted.settle (accounted : system.Accounted) {index : Fin workers} {claimedAt now : Int}
    {answer : Answer} {claimed : ClaimedRow} {rest : List ClaimedRow}
    (settling : (system.worker index).phase = .settling claimedAt claimed answer rest) :
    Accounted { system.setPhase index (.ofBatch claimedAt rest) with
      outbox := Function.update system.outbox claimed.id
        ((system.outbox claimed.id).map (settled claimed answer now)) } := by
  have held : system.holding index = claimed.id :: rest.map ClaimedRow.id := by
    simp [holding, Phase.ids, settling, Phase.held]
  have valid := accounted.phases index
  rw [settling] at valid
  obtain ⟨⟨row, copy⟩, waiting⟩ := valid
  refine accounted.move rfl ?_ ?_ (fun id outside => ⟨?_, rfl⟩) (fun id member => ?_) accounted.due
  · simp [held, Phase.ids]
  · have left : ∀ later ∈ rest, Unsent (Function.update system.outbox claimed.id
        ((system.outbox claimed.id).map (settled claimed answer now))) system.posts .delivering
        claimedAt later := fun later member =>
      (waiting later member).frame
        ⟨by simp [accounted.head_not_waiting held member], rfl⟩
    cases rest with
    | nil => trivial
    | cons first others => exact left
  · have different : id ≠ claimed.id := by
      intro same
      subst same
      exact outside (by simp [held])
    simp [different]
  · obtain ⟨found, present, good, -⟩ := accounted.held_row member
    by_cases same : id = claimed.id
    · subst same
      rw [copy.found] at present
      cases present
      refine ⟨settled claimed answer now row, by simp [copy.found], ?_⟩
      exact accounted_settled good copy.status copy.attempts
    · exact ⟨found, by simpa [same] using present, good⟩

theorem Accounted.step {input : Input workers} (accounted : system.Accounted)
    (taken : system.step input = some next) : next.Accounted := by
  cases step_moved taken with
  | inserted id row fresh pending untried => exact accounted.inserted fresh pending untried
  | selected index now ids idle nodup eligible => exact accounted.selected nodup eligible
  | committed index claimedAt rows claiming => exact accounted.committed claiming (Or.inl rfl)
  | committedUnheard index claimedAt rows claiming =>
      exact accounted.committed claiming (Or.inr rfl)
  | sent index tsMillis answer claimedAt row rest sent delivering named claim due =>
      exact accounted.posted delivering named claim due
  | settled index now answer claimedAt row rest settling => exact accounted.settle settling
  | unsettled index answer claimedAt row rest settling =>
      have valid := accounted.phases index
      rw [settling] at valid
      have held : system.holding index = row.id :: rest.map ClaimedRow.id := by
        simp [holding, Phase.ids, settling, Phase.held]
      refine accounted.release ?_ ?_
      · simp [held, Phase.ids]
      · cases rest with
        | nil => trivial
        | cons first others => exact valid.2
  | cancelled index => exact accounted.release (List.Sublist.refl _) (accounted.phases index)
  | emptied index input worker empty lossless =>
      have none : worker.phase.ids = [] := by simp [Phase.ids, empty]
      exact accounted.release (none ▸ List.nil_sublist _) (Phase.valid_of_empty empty)

theorem Started.accounted (started : Started system) : system.Accounted := by
  have unsent : ∀ id, system.posts id = 0 := by simp [posts, started.sent]
  have nothing : ∀ index, system.holding index = [] := by
    intro index
    simp [holding, started.idle index, Phase.ids, Phase.held]
  refine ⟨⟨fun index => by simp [nothing], ?_⟩, fun index => ?_, fun id row found => ?_,
    fun id _ => unsent id, by simp [started.sent]⟩
  · intro first second id member
    simp [nothing] at member
  · rw [started.idle index]
    trivial
  · obtain ⟨pending, untried⟩ := started.rows id row found
    simp only [OutboxRow.Accounted, pending, untried, unsent]
    exact ⟨by decide, Nat.le_refl 0⟩

/-! ## A delivered or dead row stays as it is -/

def Closed (row : OutboxRow) : Prop := row.status = .delivered ∨ row.status = .dead

structure Frozen (system next : System workers) (id : Uuid) (row : OutboxRow) : Prop where
  row : next.outbox id = some row
  claims : next.claims.count id = system.claims.count id
  posts : next.posts id = system.posts id

theorem Frozen.trans {last : System workers} {id : Uuid} {row : OutboxRow}
    (early : Frozen system next id row) (late : Frozen next last id row) :
    Frozen system last id row :=
  ⟨late.row, late.claims.trans early.claims, late.posts.trans early.posts⟩

theorem Accounted.not_held (accounted : system.Accounted) {id : Uuid} {row : OutboxRow}
    (found : system.outbox id = some row) (closed : Closed row) (index : Fin workers) :
    id ∉ system.holding index := by
  intro member
  obtain ⟨held, present, -, status⟩ := accounted.held_row member
  rw [found] at present
  cases present
  rcases closed with delivered | dead <;> simp_all

theorem Accounted.frozen {input : Input workers} (accounted : system.Accounted)
    (taken : system.step input = some next) {id : Uuid} {row : OutboxRow}
    (found : system.outbox id = some row) (closed : Closed row) : Frozen system next id row := by
  have free := accounted.not_held found closed
  have committed : ∀ {index : Fin workers} {claimedAt : Int} {rows : List ClaimedRow},
      (system.worker index).phase = .claiming claimedAt rows →
      markDelivering system.outbox rows id = some row ∧
        (system.claims ++ rows.map ClaimedRow.id).count id = system.claims.count id := by
    intro index claimedAt rows claiming
    have outside := free index
    simp only [holding, Phase.ids, claiming, Phase.held] at outside
    refine ⟨by simp [markDelivering, outside, found], ?_⟩
    rw [List.count_append, List.count_eq_zero_of_not_mem outside]
    rfl
  cases step_moved taken with
  | inserted other new fresh pending untried =>
      have different : id ≠ other := by
        intro same
        subst same
        rw [fresh] at found
        contradiction
      exact ⟨by simpa [different] using found, rfl, rfl⟩
  | committed index claimedAt rows claiming =>
      exact ⟨(committed claiming).1, (committed claiming).2, rfl⟩
  | committedUnheard index claimedAt rows claiming =>
      exact ⟨(committed claiming).1, (committed claiming).2, rfl⟩
  | sent index tsMillis answer claimedAt claimed rest sent delivering named claim due =>
      have different : claimed.id ≠ id := by
        intro same
        subst same
        exact free index (by simp [holding, Phase.ids, delivering, Phase.held])
      refine ⟨found, rfl, ?_⟩
      by_cases posted : answer.posted <;>
        simp [posts, posted, List.countP_append, named, different]
  | settled index now answer claimedAt claimed rest settling =>
      have different : id ≠ claimed.id := by
        intro same
        subst same
        exact free index (by simp [holding, Phase.ids, settling, Phase.held])
      exact ⟨by simpa [different] using found, rfl, rfl⟩
  | selected | unsettled | cancelled | emptied => exact ⟨found, rfl, rfl⟩

/-- The whole of the accounting, in every state of every run: rows are held by
one worker at a time, requests and attempts are bounded, what is delivered or
dead is left alone, and no row is sent on a claim from before it was due. -/
theorem delivery_accounting (start middle final : System workers)
    (first second : List (Input workers)) (started : Started start)
    (reached : run step start first = some middle)
    (continued : run step middle second = some final) :
    Exclusive final.holding ∧
      (∀ id row, final.outbox id = some row →
        final.posts id ≤ row.attempts + 1 ∧ final.posts id ≤ maxAttempts ∧
          (row.status = .pending → row.attempts < maxAttempts) ∧
          (row.status = .dead → row.attempts = maxAttempts)) ∧
      (∀ id row, middle.outbox id = some row → Closed row → Frozen middle final id row) ∧
      ∀ sent ∈ final.sent,
        ∃ moment, sent.nextAttemptAt = some moment ∧ moment ≤ sent.claimedAt := by
  have preserved : ∀ (system : System workers) input next, system.Accounted →
      system.step input = some next → next.Accounted := fun _ _ _ accounted taken =>
    accounted.step taken
  have before := run_invariant preserved started.accounted reached
  have after := run_invariant preserved before continued
  refine ⟨after.exclusive, fun id row found => ?_, fun id row found closed => ?_, after.due⟩
  · exact (after.rows id row found).bounds
  · refine run_relation (fun system next : System workers => ∀ id row,
        system.outbox id = some row → Closed row → Frozen system next id row)
      (fun _ _ _ found _ => ⟨found, rfl, rfl⟩) ?_ ?_ before continued id row found closed
    · intro one two three early late id row found closed
      have frozen := early id row found closed
      exact frozen.trans (late id row frozen.row closed)
    · exact fun system input next accounted taken => ⟨accounted.step taken, fun id row found closed =>
        accounted.frozen taken found closed⟩

theorem sampleRun_accounting :
    ∃ middle final, run step sampleStart sampleRun = some middle ∧
      run step middle sampleRetry = some final ∧
      final.posts 1 = 2 ∧
      Exclusive final.holding ∧
      (∀ id row, final.outbox id = some row →
        final.posts id ≤ row.attempts + 1 ∧ final.posts id ≤ maxAttempts ∧
          (row.status = .pending → row.attempts < maxAttempts) ∧
          (row.status = .dead → row.attempts = maxAttempts)) ∧
      (∀ id row, middle.outbox id = some row → Closed row → Frozen middle final id row) ∧
      ∀ sent ∈ final.sent,
        ∃ moment, sent.nextAttemptAt = some moment ∧ moment ≤ sent.claimedAt := by
  refine ⟨_, _, rfl, rfl, rfl, ?_⟩
  exact delivery_accounting sampleStart _ _ sampleRun sampleRetry started_sampleStart rfl rfl

end System

end Presence.Delivery
