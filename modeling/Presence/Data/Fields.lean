import Mathlib.Data.List.Basic

namespace Presence.Data

/-! Fields of a text with a separator between them.  A field that cannot hold the
separator can be cut off at either end.
-/

universe u

variable {α : Type u} {separator : α} {field other rest otherRest : List α}

/-- The first separator tells where a field ends. -/
theorem field_injective (absent : separator ∉ field) (otherAbsent : separator ∉ other)
    (same : field ++ separator :: rest = other ++ separator :: otherRest) :
    field = other ∧ rest = otherRest := by
  induction field generalizing other with
  | nil =>
      cases other with
      | nil => exact ⟨rfl, (List.cons.inj same).2⟩
      | cons mark other => exact absurd (List.cons.inj same).1 fun here => otherAbsent (by simp [here])
  | cons mark field ih =>
      cases other with
      | nil => exact absurd (List.cons.inj same).1 fun here => absent (by simp [here])
      | cons otherMark other =>
          obtain ⟨first, later⟩ := List.cons.inj same
          have fields := ih (fun member => absent (by simp [member]))
            (fun member => otherAbsent (by simp [member])) later
          exact ⟨by rw [first, fields.1], fields.2⟩

/-- The last separator tells where the field after it begins. -/
theorem lastField_injective (absent : separator ∉ field) (otherAbsent : separator ∉ other)
    (same : rest ++ separator :: field = otherRest ++ separator :: other) :
    rest = otherRest ∧ field = other := by
  have mirrored := congrArg List.reverse same
  simp only [List.reverse_append, List.reverse_cons, List.append_assoc, List.singleton_append] at mirrored
  obtain ⟨fields, rests⟩ := field_injective (by simpa using absent) (by simpa using otherAbsent) mirrored
  exact ⟨List.reverse_injective rests, List.reverse_injective fields⟩

end Presence.Data
