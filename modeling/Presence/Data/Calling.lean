import Mathlib.Data.List.Basic

namespace Presence.Data

/-! # Programs that call their environment

A program ends with a result, or it makes a call and goes on with what the call returns.
-/

universe u v w x y z

inductive Calling (κ : Type u) (ρ : Type v) (α : Type w) where
  | done (result : α)
  | call (request : κ) (next : ρ → Calling κ ρ α)

namespace Calling

variable {κ : Type u} {ρ : Type v} {α : Type w} {β : Type x} {σ : Type y} {ω : Type z}

/-- The environment answers a call by a choice of its own and may change its state.  Every call
is made in a state where it may be made, and the program ends in a state that suits its result. -/
def Meets (perform : σ → κ → ω → ρ × σ) (may : σ → κ → Prop) (post : σ → α → Prop) :
    σ → Calling κ ρ α → Prop
  | state, .done result => post state result
  | state, .call request next =>
      may state request ∧ ∀ choice, Meets perform may post (perform state request choice).2
        (next (perform state request choice).1)

/-- Two programs that do the same with every sequence of returns, whatever their calls ask for,
and end with related results. -/
def Alike (related : α → β → Prop) : Calling κ ρ α → Calling κ ρ β → Prop
  | .done result, .done other => related result other
  | .call _ next, .call _ other => ∀ returned, Alike related (next returned) (other returned)
  | _, _ => False

theorem Alike.refl {related : α → α → Prop} (same : ∀ result, related result result)
    (program : Calling κ ρ α) : Alike related program program := by
  induction program with
  | done result => exact same result
  | call request next ih => exact ih

end Calling

end Presence.Data
