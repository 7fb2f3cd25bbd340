import Mathlib.Data.List.DropRight
import Mathlib.Data.List.TakeWhile

namespace Presence.Data

/-! A queue of bounded length that would rather lose its oldest item than refuse a
new one.  Items leave it from the front: one to make room, or as many as an
acknowledgement covers.
-/

universe u

structure DropOldest (α : Type u) (bound : Nat) where
  items : List α
  short : items.length ≤ bound

namespace DropOldest

variable {α : Type u} {bound : Nat}

def push (queue : DropOldest α bound) (item : α) : DropOldest α bound :=
  if room : queue.items.length < bound then
    ⟨queue.items ++ [item], by simpa using Nat.succ_le_of_lt room⟩
  else
    ⟨(queue.items ++ [item]).tail, by simpa using queue.short⟩

/-- Drops the longest run of covered items at the front. -/
def acknowledge (queue : DropOldest α bound) (covered : α → Bool) : DropOldest α bound where
  items := queue.items.dropWhile covered
  short := (List.dropWhile_suffix covered).length_le.trans queue.short

/-! ## Against an unbounded history -/

/-- The queue holds the last items of the history, as many as it has room for. -/
def Recalls (queue : DropOldest α bound) (history : List α) : Prop :=
  queue.items = history.rtake bound

variable {queue : DropOldest α bound} {history : List α} {covered : α → Bool}

theorem Recalls.push (recalls : queue.Recalls history) (item : α) :
    (queue.push item).Recalls (history ++ [item]) := by
  have size : queue.items.length = history.length - (history.length - bound) := by
    rw [recalls, List.rtake, List.length_drop]
  simp only [Recalls, DropOldest.push]
  split <;> dsimp only
  next room =>
    have early : history.length - bound = 0 := by omega
    have still : (history ++ [item]).length - bound = 0 := by
      rw [List.length_append, List.length_singleton]
      omega
    rw [recalls, List.rtake, List.rtake, early, still, List.drop_zero, List.drop_zero]
  next full =>
    have late : (history ++ [item]).length - bound = history.length - bound + 1 := by
      rw [List.length_append, List.length_singleton]
      omega
    rw [recalls, List.rtake, List.rtake, late, ← List.drop_append_of_le_length (Nat.sub_le ..),
      List.tail_drop]

theorem dropWhile_drop {items : List α} (count : Nat)
    (ordered : items.Pairwise fun older newer => covered newer = true → covered older = true) :
    (items.drop count).dropWhile covered =
      (items.dropWhile covered).drop (count - (items.takeWhile covered).length) := by
  induction items generalizing count with
  | nil => simp
  | cons first rest ih =>
      obtain ⟨earlier, later⟩ := List.pairwise_cons.mp ordered
      cases count with
      | zero => simp
      | succ count =>
          by_cases gone : covered first = true
          · rw [List.drop_succ_cons, ih count later, List.dropWhile_cons_of_pos gone,
              List.takeWhile_cons_of_pos gone, List.length_cons, Nat.add_sub_add_right]
          · -- nothing after a kept item is covered
            have kept : ∀ item ∈ rest.drop count, ¬ covered item = true :=
              fun item member covers => gone (earlier item (List.mem_of_mem_drop member) covers)
            rw [List.dropWhile_cons_of_neg gone, List.takeWhile_cons_of_neg gone,
              List.drop_succ_cons, List.length_nil, Nat.sub_zero, List.drop_succ_cons,
              List.dropWhile_eq_self_iff.mpr fun nonempty => kept _ (List.getElem_mem nonempty)]

theorem dropWhile_eq_filter {items : List α}
    (ordered : items.Pairwise fun older newer => covered newer = true → covered older = true) :
    items.dropWhile covered = items.filter fun item => !covered item := by
  induction items with
  | nil => rfl
  | cons first rest ih =>
      obtain ⟨earlier, later⟩ := List.pairwise_cons.mp ordered
      by_cases gone : covered first = true
      · rw [List.dropWhile_cons_of_pos gone, ih later, List.filter_cons_of_neg (by simp [gone])]
      · rw [List.dropWhile_cons_of_neg gone, eq_comm, List.filter_eq_self]
        refine List.forall_mem_cons.mpr ⟨by simpa using gone, fun item member => ?_⟩
        have kept : ¬ covered item = true := fun covers => gone (earlier item member covers)
        simpa using kept

/-- Where the covered items are the oldest, acknowledging them forgets them. -/
theorem Recalls.acknowledge (recalls : queue.Recalls history)
    (ordered : history.Pairwise fun older newer => covered newer = true → covered older = true) :
    (queue.acknowledge covered).Recalls (history.filter fun item => !covered item) := by
  have whole := congrArg List.length (@List.takeWhile_append_dropWhile _ covered history)
  rw [List.length_append] at whole
  rw [← dropWhile_eq_filter ordered]
  unfold Recalls DropOldest.acknowledge
  dsimp only
  rw [recalls, List.rtake, List.rtake, dropWhile_drop _ ordered]
  congr 1
  omega

end DropOldest

end Presence.Data
