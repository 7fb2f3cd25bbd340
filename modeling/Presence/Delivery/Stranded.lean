import Presence.Delivery.Worker

namespace Presence.Delivery.System

open Presence.Data Presence.Postgres

/-! # Rows left in `delivering`

Nothing but the worker that claimed a row takes it out of `delivering` again, so
a row whose worker loses it stays there.
-/

variable {workers : Nat} {system next : System workers}

def running (system : System workers) (index : Fin workers) : List Uuid :=
  (system.worker index).phase.batch.map ClaimedRow.id

def NoStranded (system : System workers) : Prop :=
  ∀ id row, system.outbox id = some row → row.status = .delivering →
    ∃ index, id ∈ system.running index

/-- The worker does not die with rows in hand, its status updates work, and it
hears of its commits. -/
def Orderly (system : System workers) : Input workers → Prop
  | .crash index => system.running index = []
  | .settleFails _ => False
  | .commitUnheard index => (system.worker index).phase.held = []
  | _ => True

theorem Started.noStranded (started : Started system) : system.NoStranded := by
  intro id row found delivering
  rw [(started.rows id row found).1] at delivering
  contradiction

/-- One worker moves on: a row that is in `delivering` afterwards is in its new
batch, or was in `delivering` before and is not one the worker dropped. -/
theorem NoStranded.move (kept : system.NoStranded) {index : Fin workers} {worker : Worker}
    (workers : next.worker = Function.update system.worker index worker)
    (rows : ∀ id row, next.outbox id = some row → row.status = .delivering →
      id ∈ worker.phase.batch.map ClaimedRow.id ∨
        (∃ old, system.outbox id = some old ∧ old.status = .delivering) ∧
          (id ∈ system.running index → id ∈ worker.phase.batch.map ClaimedRow.id)) :
    next.NoStranded := by
  intro id row found delivering
  rcases rows id row found delivering with mine | ⟨⟨old, present, before⟩, retained⟩
  · exact ⟨index, by simpa [running, workers] using mine⟩
  · obtain ⟨holder, member⟩ := kept id old present before
    refine ⟨holder, ?_⟩
    by_cases same : holder = index
    · subst same
      simpa [running, workers] using retained member
    · simpa [running, workers, same] using member

/-- The same with the table as it was. -/
theorem NoStranded.setWorker (kept : system.NoStranded) {index : Fin workers} {worker : Worker}
    (retained : system.running index ⊆ worker.phase.batch.map ClaimedRow.id) :
    (system.setWorker index worker).NoStranded :=
  kept.move rfl fun _ row found delivering =>
    Or.inr ⟨⟨row, found, delivering⟩, fun member => retained member⟩

theorem status_markDelivering {outbox : Outbox} {rows : List ClaimedRow} {id : Uuid}
    {row : OutboxRow} (found : markDelivering outbox rows id = some row) :
    id ∈ rows.map ClaimedRow.id ∨ outbox id = some row := by
  obtain ⟨old, present, rfl⟩ := Option.map_eq_some_iff.mp found
  split
  · rename_i member
    exact Or.inl member
  · exact Or.inr present

theorem status_settled {claimed : ClaimedRow} {answer : Answer} {now : Int} {row : OutboxRow} :
    (settled claimed answer now row).status ≠ .delivering := by
  unfold settled
  split
  · simp
  · simp only
    split <;> simp

theorem NoStranded.step {input : Input workers} (kept : system.NoStranded)
    (orderly : system.Orderly input) (taken : system.step input = some next) :
    next.NoStranded := by
  cases step_moved taken with
  | inserted id row fresh pending untried =>
      intro other found present delivering
      by_cases same : other = id
      · subst same
        simp only [Function.update_self, Option.some.injEq] at present
        rw [← present, pending] at delivering
        contradiction
      · simp only [Function.update_of_ne same] at present
        exact kept other found present delivering
  | selected index now ids idle nodup eligible =>
      apply kept.setWorker
      simp [running, idle, Phase.batch]
  | committed index claimedAt rows claiming =>
      refine kept.move rfl fun id row found delivering => ?_
      rcases status_markDelivering found with claimed | old
      · exact Or.inl (by simpa using claimed)
      · refine Or.inr ⟨⟨row, old, delivering⟩, ?_⟩
        simp [running, claiming, Phase.batch]
  | committedUnheard index claimedAt rows claiming =>
      have none : rows = [] := by simpa [Orderly, claiming, Phase.held] using orderly
      refine kept.move rfl fun id row found delivering => ?_
      rcases status_markDelivering found with claimed | old
      · simp [none] at claimed
      · refine Or.inr ⟨⟨row, old, delivering⟩, ?_⟩
        simp [running, claiming, Phase.batch]
  | sent index tsMillis answer claimedAt row rest sent delivering named claim due =>
      refine kept.move rfl fun id row found delivered => Or.inr ⟨⟨row, found, delivered⟩, ?_⟩
      simp [running, delivering, Phase.batch]
  | settled index now answer claimedAt claimed rest settling =>
      refine kept.move rfl fun id row found delivering => ?_
      by_cases same : id = claimed.id
      · subst same
        simp only [Function.update_self, Option.map_eq_some_iff] at found
        obtain ⟨old, -, rfl⟩ := found
        exact absurd delivering status_settled
      · simp only [Function.update_of_ne same] at found
        refine Or.inr ⟨⟨row, found, delivering⟩, fun member => ?_⟩
        simp only [running, settling, Phase.batch, List.map_cons, List.mem_cons, same,
          false_or] at member
        simpa using member
  | unsettled index answer claimedAt row rest settling => exact orderly.elim
  | cancelled index => exact kept.setWorker (List.Subset.refl _)
  | emptied index input worker empty lossless =>
      apply kept.setWorker
      have lost : system.running index = [] := by
        rcases lossless with rfl | quiet
        · exact orderly
        · simp [running, quiet]
      simp [lost]

/-- In every orderly run, a row in `delivering` is in some live worker's batch. -/
theorem noStranded_of_orderly (start final : System workers) (inputs : List (Input workers))
    (started : Started start) (orderly : Along step Orderly start inputs)
    (ran : run step start inputs = some final) : final.NoStranded :=
  orderly.invariant (fun _ _ _ kept orderly taken => kept.step orderly taken)
    started.noStranded ran

/-! One row, one worker, and the process killed right after its claim committed. -/

def sampleRow : OutboxRow where
  eventType := "attendance_day.updated"
  payload := []
  status := .pending
  attempts := 0
  nextAttemptAt := 0
  lastError := none
  deliveredAt := none

def sampleStart : System 1 where
  secret := []
  outbox := fun id => if id = 1 then some sampleRow else none
  worker := fun _ => ⟨.idle, false⟩
  claims := []
  sent := []

theorem started_sampleStart : Started sampleStart := by
  refine ⟨fun id row found => ?_, fun _ => rfl, rfl, rfl⟩
  simp only [sampleStart, Option.ite_none_right_eq_some, Option.some.injEq] at found
  rw [← found.2]
  exact ⟨rfl, rfl⟩

theorem crash_strands_claimed_row :
    ∃ final, run step sampleStart [.select 0 0 [1], .commit 0, .crash 0] = some final ∧
      ¬ final.NoStranded := by
  refine ⟨_, rfl, fun kept => ?_⟩
  obtain ⟨index, member⟩ := kept 1 _ rfl rfl
  have nobody : index = 0 := Subsingleton.elim _ _
  subst nobody
  simp [running, setPhase, setWorker, Phase.batch] at member

def sampleRun : List (Input 1) :=
  [.select 0 0 [1], .commit 0, .send 0 0 (.status 503), .settle 0 5, .crash 0]

/-- The worker again, after the back-off. -/
def sampleRetry : List (Input 1) :=
  [.restart 0, .select 0 5000000000 [1], .commit 0, .send 0 0 (.status 204), .settle 0 6000000000]

theorem noStranded_sampleRun :
    ∃ final, run step sampleStart sampleRun = some final ∧ final.NoStranded := by
  refine ⟨_, rfl, noStranded_of_orderly sampleStart _ sampleRun started_sampleStart ?_ rfl⟩
  refine ⟨trivial, fun first select => ⟨trivial, fun second commit => ⟨trivial, fun third send =>
    ⟨trivial, fun fourth settle => ⟨?_, fun _ _ => trivial⟩⟩⟩⟩⟩
  cases select
  cases commit
  cases send
  cases settle
  rfl

end Presence.Delivery.System
