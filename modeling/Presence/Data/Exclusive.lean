import Mathlib.Data.List.Nodup
import Mathlib.Logic.Function.Basic

namespace Presence.Data

/-! Holders and what they hold.

Each holder has a list of things.  Holding is exclusive when nothing is held
twice, by one holder or by two.  A holder may let go of any part of its list,
and may take things nobody holds.
-/

universe u v

variable {ω : Type u} {α : Type v} [DecidableEq ω] {held : ω → List α} {holder : ω}
  {things : List α}

structure Exclusive (held : ω → List α) : Prop where
  nodup : ∀ holder, (held holder).Nodup
  apart : ∀ {first second : ω} {thing : α}, thing ∈ held first → thing ∈ held second → first = second

theorem mem_held_update {thing : α} {other : ω}
    (member : thing ∈ Function.update held holder things other) :
    other = holder ∧ thing ∈ things ∨ other ≠ holder ∧ thing ∈ held other := by
  by_cases same : other = holder
  · subst same
    exact Or.inl ⟨rfl, by simpa using member⟩
  · exact Or.inr ⟨same, by simpa [same] using member⟩

/-- Replacing one holder's list keeps exclusivity when nobody else holds any of
the new things. -/
theorem Exclusive.update (exclusive : Exclusive held) (nodup : things.Nodup)
    (free : ∀ thing ∈ things, ∀ other, thing ∈ held other → other = holder) :
    Exclusive (Function.update held holder things) where
  nodup := fun other => by
    by_cases same : other = holder
    · subst same
      simpa using nodup
    · simpa [same] using exclusive.nodup other
  apart := fun {first second thing} inFirst inSecond => by
    rcases mem_held_update inFirst with ⟨rfl, new⟩ | ⟨-, old⟩ <;>
      rcases mem_held_update inSecond with ⟨rfl, newToo⟩ | ⟨-, oldToo⟩
    · rfl
    · exact (free thing new second oldToo).symm
    · exact free thing newToo first old
    · exact exclusive.apart old oldToo

theorem Exclusive.release (exclusive : Exclusive held) (kept : things.Sublist (held holder)) :
    Exclusive (Function.update held holder things) :=
  exclusive.update ((exclusive.nodup holder).sublist kept) fun _ member _ other =>
    exclusive.apart other (kept.subset member)

end Presence.Data
