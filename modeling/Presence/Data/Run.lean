import Mathlib.Data.List.Basic

namespace Presence.Data

/-! Runs of a partial step function.

A system is a step function from a state and an input to the next state, or to
nothing where the input cannot happen in that state.  Every choice the
environment makes is part of the input, so a statement about all input lists is
a statement about all interleavings.
-/

universe u v

variable {σ : Type u} {ι : Type v} {step : σ → ι → Option σ}

def run (step : σ → ι → Option σ) : σ → List ι → Option σ
  | state, [] => some state
  | state, input :: rest =>
      match step state input with
      | none => none
      | some next => run step next rest

/-- Every input of the run is taken in a state where it meets `guard`. -/
def Along (step : σ → ι → Option σ) (guard : σ → ι → Prop) : σ → List ι → Prop
  | _, [] => True
  | state, input :: rest =>
      guard state input ∧ ∀ next, step state input = some next → Along step guard next rest

/-- Where the guard can be decided, a given run can be checked against it. -/
instance decidableAlong {guard : σ → ι → Prop} [∀ state input, Decidable (guard state input)] :
    (state : σ) → (inputs : List ι) → Decidable (Along step guard state inputs)
  | _, [] => .isTrue trivial
  | state, input :: rest =>
      if met : guard state input then
        match taken : step state input with
        | none => .isTrue ⟨met, fun _ impossible => by simp [taken] at impossible⟩
        | some next =>
            match decidableAlong next rest with
            | .isTrue later =>
                .isTrue ⟨met, fun other same => Option.some.inj (taken.symm.trans same) ▸ later⟩
            | .isFalse breaks => .isFalse fun along => breaks (along.2 next taken)
      else .isFalse fun along => met along.1

theorem run_cons {state next : σ} {input : ι} (rest : List ι)
    (taken : step state input = some next) :
    run step state (input :: rest) = run step next rest := by
  simp only [run, taken]

theorem run_cons_invert {state final : σ} {input : ι} {rest : List ι}
    (ran : run step state (input :: rest) = some final) :
    ∃ next, step state input = some next ∧ run step next rest = some final := by
  cases taken : step state input with
  | none => simp [run, taken] at ran
  | some next => exact ⟨next, rfl, by simpa only [run, taken] using ran⟩

theorem run_append_invert {state final : σ} {first second : List ι}
    (ran : run step state (first ++ second) = some final) :
    ∃ middle, run step state first = some middle ∧ run step middle second = some final := by
  induction first generalizing state with
  | nil => exact ⟨state, rfl, ran⟩
  | cons input rest ih =>
      obtain ⟨next, taken, remaining⟩ := run_cons_invert ran
      obtain ⟨middle, early, late⟩ := ih remaining
      exact ⟨middle, by rw [run_cons rest taken, early], late⟩

/-- A guard that does not look at the state. -/
theorem along_of_forall {guard : ι → Prop} {state : σ} {inputs : List ι}
    (met : ∀ input ∈ inputs, guard input) : Along step (fun _ => guard) state inputs := by
  induction inputs generalizing state with
  | nil => trivial
  | cons input rest ih =>
      exact ⟨met input (by simp), fun _ _ => ih fun other member => met other (by simp [member])⟩

/-- A guard that an invariant brings about. -/
theorem along_of_invariant {guard : σ → ι → Prop} {allowed : ι → Prop} {holds : σ → Prop}
    (preserved : ∀ state input next, holds state → allowed input →
      step state input = some next → holds next)
    (met : ∀ state input, holds state → allowed input → guard state input)
    {state : σ} {inputs : List ι} (start : holds state) (all : ∀ input ∈ inputs, allowed input) :
    Along step guard state inputs := by
  induction inputs generalizing state with
  | nil => trivial
  | cons input rest ih =>
      obtain ⟨first, later⟩ := List.forall_mem_cons.mp all
      exact ⟨met state input start first,
        fun next taken => ih (preserved state input next start first taken) later⟩

theorem Along.and {first second : σ → ι → Prop} {state : σ} {inputs : List ι}
    (left : Along step first state inputs) (right : Along step second state inputs) :
    Along step (fun state input => first state input ∧ second state input) state inputs := by
  induction inputs generalizing state with
  | nil => trivial
  | cons input rest ih =>
      exact ⟨⟨left.1, right.1⟩, fun next taken => ih (left.2 next taken) (right.2 next taken)⟩

theorem Along.take {guard : σ → ι → Prop} {state : σ} {inputs : List ι}
    (along : Along step guard state inputs) (count : Nat) :
    Along step guard state (inputs.take count) := by
  induction inputs generalizing state count with
  | nil =>
      rw [List.take_nil]
      exact along
  | cons input rest ih =>
      cases count with
      | zero => trivial
      | succ count => exact ⟨along.1, fun next taken => ih (along.2 next taken) count⟩

/-- What a guarded step preserves holds at the end of a guarded run. -/
theorem Along.invariant {guard : σ → ι → Prop} {holds : σ → Prop}
    (preserved : ∀ state input next, holds state → guard state input →
      step state input = some next → holds next)
    {state final : σ} {inputs : List ι} (start : holds state)
    (along : Along step guard state inputs) (ran : run step state inputs = some final) :
    holds final := by
  induction inputs generalizing state with
  | nil => cases ran; exact start
  | cons input rest ih =>
      obtain ⟨next, taken, remaining⟩ := run_cons_invert ran
      exact ih (preserved state input next start along.1 taken) (along.2 next taken) remaining

/-- What a step preserves holds at the end of every run. -/
theorem run_invariant {holds : σ → Prop}
    (preserved : ∀ state input next, holds state → step state input = some next → holds next)
    {state final : σ} {inputs : List ι} (start : holds state)
    (ran : run step state inputs = some final) : holds final := by
  induction inputs generalizing state with
  | nil => cases ran; exact start
  | cons input rest ih =>
      obtain ⟨next, taken, remaining⟩ := run_cons_invert ran
      exact ih (preserved state input next start taken) remaining

/-- A transitive relation that holds across each step from a good state holds
across the whole run. -/
theorem run_relation {holds : σ → Prop} (related : σ → σ → Prop)
    (refl : ∀ state, related state state)
    (trans : ∀ {first second third}, related first second → related second third →
      related first third)
    (preserved : ∀ state input next, holds state → step state input = some next →
      holds next ∧ related state next)
    {state final : σ} {inputs : List ι} (start : holds state)
    (ran : run step state inputs = some final) : related state final := by
  induction inputs generalizing state with
  | nil => cases ran; exact refl _
  | cons input rest ih =>
      obtain ⟨next, taken, remaining⟩ := run_cons_invert ran
      obtain ⟨good, stepped⟩ := preserved state input next start taken
      exact trans stepped (ih good remaining)

/-! Inputs that always act, and may stop after any of them. -/

section

variable {act : σ → ι → σ} {holds : σ → Prop} {state : σ}

/-- Holds before, between and after the inputs. -/
def Throughout (act : σ → ι → σ) (holds : σ → Prop) : σ → List ι → Prop
  | state, [] => holds state
  | state, input :: rest => holds state ∧ Throughout act holds (act state input) rest

theorem Throughout.take {inputs : List ι} (throughout : Throughout act holds state inputs)
    (count : Nat) : holds ((inputs.take count).foldl act state) := by
  induction inputs generalizing state count with
  | nil =>
      rw [List.take_nil]
      exact throughout
  | cons input rest ih =>
      cases count with
      | zero => exact throughout.1
      | succ count => exact ih throughout.2 count

theorem Throughout.append {first second : List ι} (early : Throughout act holds state first)
    (late : Throughout act holds (first.foldl act state) second) :
    Throughout act holds state (first ++ second) := by
  induction first generalizing state with
  | nil => exact late
  | cons input rest ih => exact ⟨early.1, ih early.2 late⟩

theorem Throughout.imp {other : σ → Prop} {inputs : List ι}
    (throughout : Throughout act holds state inputs) (weaker : ∀ state, holds state → other state) :
    Throughout act other state inputs := by
  induction inputs generalizing state with
  | nil => exact weaker state throughout
  | cons input rest ih => exact ⟨weaker state throughout.1, ih throughout.2⟩

theorem throughout_of_preserved {inputs : List ι} (start : holds state)
    (preserved : ∀ state, ∀ input ∈ inputs, holds state → holds (act state input)) :
    Throughout act holds state inputs := by
  induction inputs generalizing state with
  | nil => exact start
  | cons input rest ih =>
      exact ⟨start, ih (preserved state input (by simp) start)
        fun state other member => preserved state other (by simp [member])⟩

end

end Presence.Data
