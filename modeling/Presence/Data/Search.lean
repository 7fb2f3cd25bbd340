import Mathlib.Data.List.Infix

namespace Presence.Data.Search

/-! # Occurrences of a pattern

A pattern of which no end is also its beginning never overlaps itself, so that a search
that goes on behind each match finds every occurrence.
-/

variable {α : Type*}

def Unbordered (pattern : List α) : Prop :=
  ∀ shift < pattern.length, 0 < shift → ¬ pattern.drop shift <+: pattern

/-- An occurrence hides no other. -/
theorem not_prefix_drop {pattern text : List α} (unbordered : Unbordered pattern)
    (found : pattern <+: text) {shift : Nat} (positive : 0 < shift)
    (small : shift < pattern.length) : ¬ pattern <+: text.drop shift := by
  intro again
  obtain ⟨rest, rfl⟩ := found
  rw [List.drop_append_of_le_length small.le] at again
  refine unbordered shift small positive ?_
  refine List.prefix_of_prefix_length_le (List.prefix_append _ rest) again ?_
  rw [List.length_drop]
  omega

variable [DecidableEq α]

/-- Where the pattern first occurs. -/
def index (pattern : List α) : List α → Option Nat
  | [] => if pattern.isEmpty then some 0 else none
  | letter :: text =>
    if pattern.isPrefixOf (letter :: text) then some 0
    else (index pattern text).map (· + 1)

/-- What lies behind each occurrence, in order. -/
def behind (pattern text : List α) : List (List α) :=
  (text.tails.filter pattern.isPrefixOf).map (List.drop pattern.length)

instance (pattern : List α) : Decidable (Unbordered pattern) :=
  inferInstanceAs (Decidable (∀ shift < pattern.length, 0 < shift →
    ¬ pattern.drop shift <+: pattern))

variable {pattern text rest : List α}

theorem mem_behind :
    rest ∈ behind pattern text ↔ ∃ front, text = front ++ pattern ++ rest := by
  simp only [behind, List.mem_map, List.mem_filter, List.mem_tails, List.isPrefixOf_iff_prefix]
  constructor
  · rintro ⟨_, ⟨⟨front, rfl⟩, ⟨tail, rfl⟩⟩, rfl⟩
    exact ⟨front, by rw [List.drop_left, List.append_assoc]⟩
  · rintro ⟨front, rfl⟩
    exact ⟨pattern ++ rest, ⟨⟨front, (List.append_assoc ..).symm⟩, ⟨rest, rfl⟩⟩, List.drop_left⟩

/-- Letters at which the pattern does not begin make no difference. -/
theorem behind_drop (count : Nat) (text : List α)
    (absent : ∀ shift < count, ¬ pattern <+: text.drop shift) :
    behind pattern text = behind pattern (text.drop count) := by
  induction count generalizing text with
  | zero => rfl
  | succ count ih =>
    cases text with
    | nil => rfl
    | cons letter text =>
      have first : ¬ pattern <+: letter :: text := absent 0 count.succ_pos
      have here : behind pattern (letter :: text) = behind pattern text := by
        have missed : ¬ pattern.isPrefixOf (letter :: text) = true :=
          mt List.isPrefixOf_iff_prefix.mp first
        rw [behind, List.tails_cons, List.filter_cons_of_neg missed]
        rfl
      rw [here, ih text fun shift small => absent (shift + 1) (Nat.succ_lt_succ small)]
      rfl

theorem index_nil_eq_some {place : Nat} :
    index pattern [] = some place ↔ pattern = [] ∧ place = 0 := by
  cases pattern with
  | nil => simp [index, eq_comm]
  | cons letter pattern => simp [index]

theorem index_cons_eq_some {letter : α} {place : Nat} :
    index pattern (letter :: text) = some place ↔
      pattern <+: letter :: text ∧ place = 0 ∨
        ¬ pattern <+: letter :: text ∧ ∃ before, index pattern text = some before ∧
          before + 1 = place := by
  rw [index]
  split
  next begins =>
    rw [List.isPrefixOf_iff_prefix] at begins
    simp [begins, eq_comm]
  next other =>
    rw [List.isPrefixOf_iff_prefix] at other
    simp [other]

theorem behind_of_index_none (missing : index pattern text = none) :
    behind pattern text = [] := by
  induction text with
  | nil =>
    cases pattern with
    | nil => exact absurd missing (Option.some_ne_none 0)
    | cons letter pattern => rfl
  | cons letter text ih =>
    rw [index] at missing
    split at missing
    next found => exact absurd missing (Option.some_ne_none 0)
    next absent =>
      rw [behind, List.tails_cons, List.filter_cons_of_neg absent]
      exact ih (Option.map_eq_none_iff.mp missing)

theorem prefix_of_index_some {place : Nat} (found : index pattern text = some place) :
    pattern <+: text.drop place ∧ ∀ earlier < place, ¬ pattern <+: text.drop earlier := by
  induction text generalizing place with
  | nil =>
    obtain ⟨rfl, rfl⟩ := index_nil_eq_some.mp found
    exact ⟨List.nil_prefix, nofun⟩
  | cons letter text ih =>
    obtain ⟨first, rfl⟩ | ⟨absent, before, later, rfl⟩ := index_cons_eq_some.mp found
    · exact ⟨first, nofun⟩
    · obtain ⟨occurs, fresh⟩ := ih later
      refine ⟨occurs, fun earlier small => ?_⟩
      cases earlier with
      | zero => exact absent
      | succ earlier => exact fresh earlier (Nat.lt_of_succ_lt_succ small)

theorem index_append {place : Nat} (found : index pattern text = some place) (more : List α) :
    index pattern (text ++ more) = some place := by
  induction text generalizing place with
  | nil =>
    obtain ⟨rfl, rfl⟩ := index_nil_eq_some.mp found
    cases more with
    | nil => rfl
    | cons letter more => rfl
  | cons letter text ih =>
    rw [List.cons_append, index_cons_eq_some]
    have extended : letter :: text <+: letter :: (text ++ more) := List.prefix_append _ more
    obtain ⟨first, rfl⟩ | ⟨absent, before, later, rfl⟩ := index_cons_eq_some.mp found
    · exact .inl ⟨first.trans extended, rfl⟩
    · refine .inr ⟨fun begins => absent ?_, before, ih later, rfl⟩
      have inside := (prefix_of_index_some later).1.length_le
      refine List.prefix_of_prefix_length_le begins extended ?_
      rw [List.length_drop] at inside
      rw [List.length_cons]
      omega

/-- The search that goes on behind a match. -/
theorem behind_of_index_some (unbordered : Unbordered pattern) (nonempty : pattern ≠ [])
    {place : Nat} (found : index pattern text = some place) :
    behind pattern text = text.drop (place + pattern.length) ::
      behind pattern (text.drop (place + pattern.length)) := by
  obtain ⟨occurs, fresh⟩ := prefix_of_index_some found
  rw [behind_drop place text fresh, ← List.drop_drop]
  generalize text.drop place = text at occurs
  cases text with
  | nil => exact absurd (List.prefix_nil.mp occurs) nonempty
  | cons letter text =>
    have first : behind pattern (letter :: text) =
        (letter :: text).drop pattern.length :: behind pattern text := by
      rw [behind, List.tails_cons,
        List.filter_cons_of_pos (List.isPrefixOf_iff_prefix.mpr occurs), List.map_cons]
      rfl
    have positive := List.length_pos_iff.mpr nonempty
    have later : behind pattern text = behind pattern (text.drop (pattern.length - 1)) := by
      refine behind_drop _ _ fun shift small => ?_
      exact not_prefix_drop unbordered occurs shift.succ_pos (by omega)
    obtain ⟨count, length⟩ : ∃ count, pattern.length = count + 1 :=
      ⟨pattern.length - 1, by omega⟩
    rw [length, Nat.add_sub_cancel] at later
    rw [first, later, length]
    rfl

end Presence.Data.Search
