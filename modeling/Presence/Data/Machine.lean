import Mathlib.Data.List.Basic

namespace Presence.Data

/-! Machines that answer every request.

Two machines are compared by their answers only.  A relation between their states
that each request keeps, and under which the answers agree, is a simulation; it is
all that is needed for runs of any length.
-/

universe u v w

variable {σ τ : Type u} {ι : Type v} {ο : Type w}

/-- The answers to the requests, in order. -/
def answers (act : σ → ι → σ × ο) : σ → List ι → List ο
  | _, [] => []
  | state, request :: rest => (act state request).2 :: answers act (act state request).1 rest

/-- The state that the requests leave. -/
def served (act : σ → ι → σ × ο) (state : σ) (requests : List ι) : σ :=
  requests.foldl (fun state request => (act state request).1) state

def Simulates (act : σ → ι → σ × ο) (other : τ → ι → τ × ο) (related : σ → τ → Prop) : Prop :=
  ∀ state shadow request, related state shadow →
    related (act state request).1 (other shadow request).1 ∧
      (act state request).2 = (other shadow request).2

variable {act : σ → ι → σ × ο} {other : τ → ι → τ × ο} {related : σ → τ → Prop}
  {state : σ} {shadow : τ}

theorem Simulates.answers (simulates : Simulates act other related) (requests : List ι)
    (start : related state shadow) :
    answers act state requests = Data.answers other shadow requests := by
  induction requests generalizing state shadow with
  | nil => rfl
  | cons request rest ih =>
      obtain ⟨next, same⟩ := simulates state shadow request start
      simp only [Data.answers, same, ih next]

theorem Simulates.served (simulates : Simulates act other related) (requests : List ι)
    (start : related state shadow) :
    related (served act state requests) (Data.served other shadow requests) := by
  induction requests generalizing state shadow with
  | nil => exact start
  | cons request rest ih => exact ih (simulates state shadow request start).1

theorem served_concat (act : σ → ι → σ × ο) (state : σ) (requests : List ι) (request : ι) :
    served act state (requests ++ [request]) = (act (served act state requests) request).1 := by
  simp [served]

/-! Two runs of requests that need not be the same. -/

/-- Requests that are alike keep the states related and get the same answer. -/
def Couples (act : σ → ι → σ × ο) (other : τ → ι → τ × ο) (alike : ι → ι → Prop)
    (related : σ → τ → Prop) : Prop :=
  ∀ state shadow request twin, related state shadow → alike request twin →
    related (act state request).1 (other shadow twin).1 ∧
      (act state request).2 = (other shadow twin).2

theorem Couples.answers {alike : ι → ι → Prop} (couples : Couples act other alike related)
    {requests twins : List ι} (pairs : List.Forall₂ alike requests twins)
    (start : related state shadow) :
    answers act state requests = Data.answers other shadow twins := by
  induction pairs generalizing state shadow with
  | nil => rfl
  | cons here _ ih =>
      obtain ⟨next, same⟩ := couples state shadow _ _ start here
      simp only [Data.answers, same, ih next]

end Presence.Data
