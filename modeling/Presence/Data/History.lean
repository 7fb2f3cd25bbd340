import Mathlib.Data.List.Induction

namespace Presence.Data

/-! Histories that grow at their end.

What is to hold of each event may look at all that came before it.
-/

universe u

variable {α : Type u} {holds : List α → α → Prop} {history : List α} {event : α}

def AtEach (holds : List α → α → Prop) (history : List α) : Prop :=
  ∀ earlier event later, history = earlier ++ event :: later → holds earlier event

theorem atEach_nil : AtEach holds [] := by
  intro earlier event later split
  simp at split

theorem AtEach.concat (each : AtEach holds history) (last : holds history event) :
    AtEach holds (history ++ [event]) := by
  intro earlier other later split
  cases later using List.reverseRecOn with
  | nil =>
      obtain ⟨rfl, same⟩ := List.append_inj' split rfl
      cases same
      exact last
  | append_singleton later end_ =>
      rw [← List.cons_append, ← List.append_assoc] at split
      obtain ⟨same, -⟩ := List.append_inj' split rfl
      exact each earlier other later same

theorem AtEach.imp {weaker : List α → α → Prop} (each : AtEach holds history)
    (implies : ∀ earlier event, holds earlier event → weaker earlier event) :
    AtEach weaker history :=
  fun earlier event later split => implies earlier event (each earlier event later split)

end Presence.Data
