import Mathlib.Data.List.Basic

namespace Presence.Data

/-! Taking a fallible computation apart: one lemma for sequencing, so that a
proof about a chain of fallible steps peels them one by one, and the lists that
are gone through item by item. -/

universe u

variable {ε α β : Type u}

theorem except_bind_ok_iff {first : Except ε α} {rest : α → Except ε β} {result : β} :
    (first >>= rest) = .ok result ↔ ∃ value, first = .ok value ∧ rest value = .ok result := by
  cases first with
  | error reason => simp [bind, Except.bind]
  | ok value => simp [bind, Except.bind]

theorem exists_ok_of_toBool {first : Except ε α} (ok : first.toBool = true) :
    ∃ value, first = .ok value := by
  cases first with
  | error reason => cases ok
  | ok value => exact ⟨value, rfl⟩

theorem except_mapError_ok_iff {ε' : Type u} {rename : ε → ε'} {first : Except ε α} {result : α} :
    first.mapError rename = .ok result ↔ first = .ok result := by
  cases first with
  | error reason => simp [Except.mapError]
  | ok value => simp [Except.mapError]

/-- Where no item fails, the values are those of the items, in order. -/
theorem exists_mapM_eq_some {f : α → Option β} {items : List α}
    (each : ∀ item ∈ items, ∃ value, f item = some value) :
    ∃ values, items.mapM f = some values ∧ items.map f = values.map some := by
  induction items with
  | nil => exact ⟨[], rfl, rfl⟩
  | cons item rest ih =>
      obtain ⟨here, others⟩ := List.forall_mem_cons.mp each
      obtain ⟨value, first⟩ := here
      obtain ⟨values, collected, same⟩ := ih others
      refine ⟨value :: values, ?_, ?_⟩
      · rw [List.mapM_cons, first, collected]
        rfl
      · rw [List.map_cons, List.map_cons, first, same]

theorem mapM_eq_map {f : α → Option β} {value : α → β} {items : List α}
    (each : ∀ item ∈ items, f item = some (value item)) : items.mapM f = some (items.map value) := by
  induction items with
  | nil => rfl
  | cons item items ih =>
      obtain ⟨first, others⟩ := List.forall_mem_cons.mp each
      rw [List.mapM_cons, first, ih others]
      rfl

/-- Items that are results already. -/
theorem mapM_id_exists {items : List (Except ε α)}
    (fine : ∀ item ∈ items, ∃ value, item = .ok value) : ∃ values, items.mapM id = .ok values := by
  induction items with
  | nil => exact ⟨[], rfl⟩
  | cons item rest ih =>
      obtain ⟨value, rfl⟩ := fine item (List.mem_cons_self ..)
      obtain ⟨values, later⟩ := ih fun other listed => fine other (List.mem_cons_of_mem _ listed)
      refine ⟨value :: values, ?_⟩
      rw [List.mapM_cons]
      exact except_bind_ok_iff.mpr ⟨value, rfl, except_bind_ok_iff.mpr ⟨values, later, rfl⟩⟩

theorem mapM_id_ok {items : List (Except ε α)} {values : List α}
    (loaded : items.mapM id = .ok values) : items = values.map .ok := by
  induction items generalizing values with
  | nil =>
      cases loaded
      rfl
  | cons item rest ih =>
      rw [List.mapM_cons] at loaded
      obtain ⟨value, here, loaded⟩ := except_bind_ok_iff.mp loaded
      obtain ⟨others, later, collected⟩ := except_bind_ok_iff.mp loaded
      cases collected
      rw [List.map_cons, ← ih later, ← here]
      rfl

end Presence.Data
