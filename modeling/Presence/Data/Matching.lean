import Mathlib.Data.List.Basic

namespace Presence.Data.Matching

/-! # Searching with a regular expression

An expression that matches in one way only is a function of the text from a place on.  The
search takes the leftmost match, and goes on behind it.
-/

variable {α β γ : Type*}

/-- What the leftmost match captures. -/
def find (matcher : List α → Option β) : List α → Option β
  | [] => matcher []
  | letter :: text =>
    match matcher (letter :: text) with
    | some found => some found
    | none => find matcher text

/-- The loop over a text, with so many letters of the last match still to go. -/
def removeFrom (matcher : List α → Option Nat) : Nat → List α → List α
  | _, [] => []
  | skip + 1, _ :: text => removeFrom matcher skip text
  | 0, letter :: text =>
    match matcher (letter :: text) with
    | some length => removeFrom matcher (length - 1) text
    | none => letter :: removeFrom matcher 0 text

/-- All matches taken out. -/
def remove (matcher : List α → Option Nat) (text : List α) : List α := removeFrom matcher 0 text

def findAllFrom (matcher : List α → Option (Nat × β)) : Nat → List α → List β
  | _, [] => []
  | skip + 1, _ :: text => findAllFrom matcher skip text
  | 0, letter :: text =>
    match matcher (letter :: text) with
    | some (length, found) => found :: findAllFrom matcher (length - 1) text
    | none => findAllFrom matcher 0 text

/-- What all matches capture. -/
def findAll (matcher : List α → Option (Nat × β)) (text : List α) : List β :=
  findAllFrom matcher 0 text

/-- No match begins in the front of a text. -/
def NoneIn (matcher : List α → Option γ) : List α → List α → Prop
  | [], _ => True
  | letter :: front, rest => matcher (letter :: front ++ rest) = none ∧ NoneIn matcher front rest

theorem noneIn_append {matcher : List α → Option γ} {front middle rest : List α} :
    NoneIn matcher (front ++ middle) rest ↔
      NoneIn matcher front (middle ++ rest) ∧ NoneIn matcher middle rest := by
  induction front with
  | nil => exact ⟨fun none => ⟨trivial, none⟩, And.right⟩
  | cons letter front ih =>
    rw [List.cons_append, NoneIn, NoneIn, ih, and_assoc, List.cons_append, List.cons_append,
      List.append_assoc]

/-- A match begins with certain letters only. -/
theorem noneIn_of_first {matcher : List α → Option γ} {first : α → Prop}
    (begins : ∀ letter text, matcher (letter :: text) ≠ none → first letter) {front : List α}
    (others : ∀ letter ∈ front, ¬ first letter) (rest : List α) : NoneIn matcher front rest := by
  induction front with
  | nil => trivial
  | cons letter front ih =>
    obtain ⟨here, later⟩ := List.forall_mem_cons.mp others
    exact ⟨not_not.mp fun found => here (begins letter _ found), ih later⟩

section Find

variable {matcher : List α → Option β}

theorem find_append {front rest : List α} (none : NoneIn matcher front rest) :
    find matcher (front ++ rest) = find matcher rest := by
  induction front with
  | nil => rfl
  | cons letter front ih =>
    rw [List.cons_append, find, ← List.cons_append, none.1]
    exact ih none.2

theorem find_here {text : List α} {found : β} (here : matcher text = some found) :
    find matcher text = some found := by
  cases text with
  | nil => exact here
  | cons letter text => rw [find, here]

end Find

section Remove

variable {matcher : List α → Option Nat}

theorem remove_append {front rest : List α} (none : NoneIn matcher front rest) :
    remove matcher (front ++ rest) = front ++ remove matcher rest := by
  induction front with
  | nil => rfl
  | cons letter front ih =>
    rw [remove, List.cons_append, removeFrom, ← List.cons_append, none.1]
    exact congrArg (letter :: ·) (ih none.2)

theorem remove_eq_self {text : List α} (none : NoneIn matcher text []) :
    remove matcher text = text := by
  have whole := remove_append none
  rw [List.append_nil] at whole
  exact whole.trans (List.append_nil text)

theorem removeFrom_append (skipped rest : List α) :
    removeFrom matcher skipped.length (skipped ++ rest) = remove matcher rest := by
  induction skipped with
  | nil => rfl
  | cons letter skipped ih => exact ih

theorem remove_match {found rest : List α} (nonempty : found ≠ [])
    (here : matcher (found ++ rest) = some found.length) :
    remove matcher (found ++ rest) = remove matcher rest := by
  cases found with
  | nil => exact absurd rfl nonempty
  | cons letter found =>
    rw [remove, List.cons_append, removeFrom, ← List.cons_append, here]
    exact removeFrom_append found rest

end Remove

section FindAll

variable {matcher : List α → Option (Nat × β)}

theorem findAll_append {front rest : List α} (none : NoneIn matcher front rest) :
    findAll matcher (front ++ rest) = findAll matcher rest := by
  induction front with
  | nil => rfl
  | cons letter front ih =>
    rw [findAll, List.cons_append, findAllFrom, ← List.cons_append, none.1]
    exact ih none.2

theorem findAllFrom_append (skipped rest : List α) :
    findAllFrom matcher skipped.length (skipped ++ rest) = findAll matcher rest := by
  induction skipped with
  | nil => rfl
  | cons letter skipped ih => exact ih

theorem findAll_match {found rest : List α} {captured : β} (nonempty : found ≠ [])
    (here : matcher (found ++ rest) = some (found.length, captured)) :
    findAll matcher (found ++ rest) = captured :: findAll matcher rest := by
  cases found with
  | nil => exact absurd rfl nonempty
  | cons letter found =>
    rw [findAll, List.cons_append, findAllFrom, ← List.cons_append, here]
    exact congrArg (captured :: ·) (findAllFrom_append found rest)

end FindAll

end Presence.Data.Matching
