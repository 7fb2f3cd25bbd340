import Mathlib.Data.List.Induction
import Mathlib.Order.Lattice
import Presence.Data.Keyed

namespace Presence.Data

/-! Replicas that keep the newest write of each key.

A write names a key, carries a stamp, and sets the key to a value or clears it.
A replica takes a write only if its stamp is above the last one it took for that
key.  Which writes a replica has seen then decides what it holds, and neither
their order nor repetition matters, provided that the newest writes of a key agree.
-/

universe u v w

variable {κ : Type u} {τ : Type v} {β : Type w} [LinearOrder τ]

structure Write (κ : Type u) (τ : Type v) (β : Type w) where
  key : κ
  stamp : τ
  value : Option β

/-- A write of the log that no other write of its key is newer than. -/
structure Latest (log : List (Write κ τ β)) (write : Write κ τ β) : Prop where
  logged : write ∈ log
  newest : ∀ other ∈ log, other.key = write.key → other.stamp ≤ write.stamp

/-! ## A log that follows a table -/

/-- The table is what the newest writes of the log say, key by key. -/
structure Reflects (log : List (Write κ τ β)) (table : κ → Option β) : Prop where
  unwritten : ∀ key, (∀ write ∈ log, write.key ≠ key) → table key = none
  latest : ∀ write, Latest log write → write.value = table write.key

theorem reflects_nil : Reflects ([] : List (Write κ τ β)) fun _ => none :=
  ⟨fun _ _ => rfl, fun _ latest => absurd latest.logged (by simp)⟩

/-- A batch of writes under one new stamp: it says of each key it names what the
new table says, and the new table differs from the old one at no other key. -/
theorem Reflects.append {log batch : List (Write κ τ β)} {table after : κ → Option β} {now : τ}
    (reflects : Reflects log table) (older : ∀ write ∈ log, write.stamp < now)
    (stamped : ∀ write ∈ batch, write.stamp = now)
    (written : ∀ write ∈ batch, write.value = after write.key)
    (kept : ∀ key, (∀ write ∈ batch, write.key ≠ key) → after key = table key) :
    Reflects (log ++ batch) after := by
  refine ⟨fun key unwritten => ?_, fun write latest => ?_⟩
  · rw [kept key fun write member => unwritten write (List.mem_append_right _ member)]
    exact reflects.unwritten key fun write member =>
      unwritten write (List.mem_append_left _ member)
  · rcases List.mem_append.mp latest.logged with old | new
    · have alone : ∀ other ∈ batch, other.key ≠ write.key := by
        intro other member same
        have newer := latest.newest other (List.mem_append_right _ member) same
        rw [stamped other member] at newer
        exact absurd (older write old) (not_lt.mpr newer)
      rw [kept write.key alone]
      exact reflects.latest write ⟨old, fun other member =>
        latest.newest other (List.mem_append_left _ member)⟩
    · exact written write new

/-! ## A batch that is a difference

The writes report the difference of two keyed maps, but under names of their own.
That is sound if two values have one name exactly if they have one key.
-/

/-- The log follows the table and is no newer than the clock. -/
structure Recorded (log : List (Write κ τ β)) (table : κ → Option β) (clock : τ) : Prop where
  reflects : Reflects log table
  stamped : ∀ write ∈ log, write.stamp ≤ clock

theorem Recorded.later {log : List (Write κ τ β)} {table : κ → Option β} {clock now : τ}
    (recorded : Recorded log table clock) (later : clock ≤ now) : Recorded log table now :=
  ⟨recorded.reflects, fun write member => (recorded.stamped write member).trans later⟩

section Difference

universe k a

variable {α : Type a} {ν : Type k} {key : α → ν} [DecidableEq ν]

def diffBatch (name : α → κ) (view : α → β) (now : τ) (changes : List (Change α)) :
    List (Write κ τ β) :=
  changes.map fun change => ⟨name change.subject, now, change.outcome view⟩

omit [LinearOrder τ] in
theorem stamp_diffBatch {name : α → κ} {view : α → β} {now : τ} {changes : List (Change α)} :
    ∀ write ∈ diffBatch name view now changes, write.stamp = now := by
  intro write member
  obtain ⟨change, -, rfl⟩ := List.mem_map.mp member
  rfl

theorem Recorded.append_diff {name : α → κ} {view : α → β} {same : α → α → Bool}
    {before after : Keyed key} {log : List (Write κ τ β)} {table rewritten : κ → Option β}
    {clock now : τ} (recorded : Recorded log table clock) (newer : clock < now)
    (held : ∀ prev ∈ before.values, table (name prev) = some (view prev))
    (stored : ∀ next ∈ after.values, rewritten (name next) = some (view next))
    (cleared : ∀ prev ∈ before.values, (∀ next ∈ after.values, name next ≠ name prev) →
      rewritten (name prev) = none)
    (elsewhere : ∀ here, (∀ prev ∈ before.values, name prev ≠ here) →
      (∀ next ∈ after.values, name next ≠ here) → rewritten here = table here)
    (named : ∀ prev ∈ before.values, ∀ next ∈ after.values,
      key prev = key next ↔ name prev = name next)
    (seen : ∀ prev ∈ before.values, ∀ next ∈ after.values, key prev = key next →
      same prev next = true → view prev = view next) :
    Recorded (log ++ diffBatch name view now (Keyed.diff same before after)) rewritten now := by
  have older : ∀ write ∈ log, write.stamp < now :=
    fun write member => (recorded.stamped write member).trans_lt newer
  refine ⟨recorded.reflects.append older stamp_diffBatch ?_ ?_, ?_⟩
  · intro write member
    obtain ⟨change, reported, rfl⟩ := List.mem_map.mp member
    cases change with
    | upserted next => exact (stored next (Keyed.upserted_mem_diff.mp reported).1).symm
    | removed prev =>
        obtain ⟨here, gone⟩ := Keyed.removed_mem_diff.mp reported
        refine (cleared prev here fun next there alike => ?_).symm
        exact gone next there ((named prev here next there).mpr alike.symm).symm
  · intro here silent
    have reported : ∀ change ∈ Keyed.diff same before after, name change.subject ≠ here :=
      fun change member => silent _ (List.mem_map.mpr ⟨change, member, rfl⟩)
    -- a value of this name in `after` passed the comparison with one in `before`
    have passed : ∀ next ∈ after.values, name next = here →
        ∃ prev ∈ before.values, key prev = key next ∧ same prev next = true := by
      intro next there called
      by_contra changed
      exact reported (.upserted next) (Keyed.upserted_mem_diff.mpr ⟨there, changed⟩) called
    by_cases stays : ∃ next ∈ after.values, name next = here
    · obtain ⟨next, there, called⟩ := stays
      obtain ⟨prev, old, alike, passes⟩ := passed next there called
      have prevCalled : name prev = here := ((named prev old next there).mp alike).trans called
      rw [← called, stored next there, called, ← prevCalled, held prev old,
        seen prev old next there alike passes]
    · have absent : ∀ next ∈ after.values, name next ≠ here :=
        fun next there called => stays ⟨next, there, called⟩
      refine elsewhere here (fun prev old called => ?_) absent
      refine reported (.removed prev) (Keyed.removed_mem_diff.mpr ⟨old, fun next there alike => ?_⟩)
        called
      exact absent next there (((named prev old next there).mp alike.symm).symm.trans called)
  · intro write member
    rcases List.mem_append.mp member with old | new
    · exact (older write old).le
    · exact (stamp_diffBatch write new).le

end Difference

/-! ## Replicas -/

abbrev Replica (κ : Type u) (τ : Type v) (β : Type w) := κ → Option (Write κ τ β)

/-- A write is taken only if it is strictly newer than the last one taken. -/
def newest (last : Option (Write κ τ β)) (write : Write κ τ β) : Write κ τ β :=
  match last with
  | none => write
  | some last => if last.stamp < write.stamp then write else last

namespace Replica

variable [DecidableEq κ]

def empty : Replica κ τ β := fun _ => none

def take (replica : Replica κ τ β) (write : Write κ τ β) : Replica κ τ β :=
  Function.update replica write.key (some (newest (replica write.key) write))

def receive (writes : List (Write κ τ β)) : Replica κ τ β := writes.foldl take empty

def read (replica : Replica κ τ β) (key : κ) : Option β := (replica key).bind Write.value

theorem receive_concat (writes : List (Write κ τ β)) (write : Write κ τ β) :
    receive (writes ++ [write]) = (receive writes).take write := by
  simp only [receive, List.foldl_append, List.foldl_cons, List.foldl_nil]

end Replica

/-- What a replica holds for one key after it received the writes. -/
inductive Holds (writes : List (Write κ τ β)) (key : κ) : Option (Write κ τ β) → Prop
  | nothing (unwritten : ∀ write ∈ writes, write.key ≠ key) : Holds writes key none
  | latest (write : Write κ τ β) (named : write.key = key) (latest : Latest writes write) :
      Holds writes key (some write)

theorem Holds.other {writes : List (Write κ τ β)} {key : κ} {write : Write κ τ β}
    {held : Option (Write κ τ β)} (holds : Holds writes key held) (different : write.key ≠ key) :
    Holds (writes ++ [write]) key held := by
  cases holds with
  | nothing unwritten =>
      apply Holds.nothing
      intro other member
      rcases List.mem_append.mp member with old | new
      · exact unwritten other old
      · rw [List.mem_singleton.mp new]
        exact different
  | latest last named latest =>
      apply Holds.latest last named
      refine ⟨List.mem_append_left _ latest.logged, fun other member same => ?_⟩
      rcases List.mem_append.mp member with old | new
      · exact latest.newest other old same
      · rw [List.mem_singleton.mp new] at same
        exact absurd (same.trans named) different

theorem Holds.same {writes : List (Write κ τ β)} {write : Write κ τ β}
    {held : Option (Write κ τ β)} (holds : Holds writes write.key held) :
    Holds (writes ++ [write]) write.key (some (newest held write)) := by
  cases holds with
  | nothing unwritten =>
      apply Holds.latest write rfl
      refine ⟨by simp, fun other member same => ?_⟩
      rcases List.mem_append.mp member with old | new
      · exact absurd same (unwritten other old)
      · rw [List.mem_singleton.mp new]
  | latest last named latest =>
      simp only [newest]
      split
      next older =>
        apply Holds.latest write rfl
        refine ⟨by simp, fun other member same => ?_⟩
        rcases List.mem_append.mp member with old | new
        · exact ((latest.newest other old (same.trans named.symm)).trans_lt older).le
        · rw [List.mem_singleton.mp new]
      next notOlder =>
        apply Holds.latest last named
        refine ⟨List.mem_append_left _ latest.logged, fun other member same => ?_⟩
        rcases List.mem_append.mp member with old | new
        · exact latest.newest other old same
        · rw [List.mem_singleton.mp new]
          exact not_lt.mp notOlder

variable [DecidableEq κ]

theorem holds_receive (writes : List (Write κ τ β)) (key : κ) :
    Holds writes key (Replica.receive writes key) := by
  induction writes using List.reverseRecOn generalizing key with
  | nil => exact .nothing (by simp)
  | append_singleton writes write ih =>
      rw [Replica.receive_concat, Replica.take]
      by_cases same : key = write.key
      · subst same
        rw [Function.update_self]
        exact (ih write.key).same
      · rw [Function.update_of_ne same]
        exact (ih key).other (Ne.symm same)

/-- A replica that has seen every write of the log, in whatever order and however
often, reads as the table. -/
theorem Reflects.read_receive {log delivered : List (Write κ τ β)} {table : κ → Option β}
    (reflects : Reflects log table) (seen : ∀ write, write ∈ delivered ↔ write ∈ log) (key : κ) :
    (Replica.receive delivered).read key = table key := by
  have holds := holds_receive delivered key
  simp only [Replica.read]
  generalize Replica.receive delivered key = held at holds
  cases holds with
  | nothing unwritten =>
      exact (reflects.unwritten key fun write member =>
        unwritten write ((seen write).mpr member)).symm
  | latest write named latest =>
      rw [← named]
      exact reflects.latest write ⟨(seen write).mp latest.logged, fun other member =>
        latest.newest other ((seen other).mpr member)⟩

end Presence.Data
