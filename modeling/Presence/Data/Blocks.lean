import Mathlib.Data.List.FinRange

namespace Presence.Data

/-! # Input worked off in blocks

A stream of items arrives in pieces of any length, and its reader works it off in blocks
of one size.  The items alone decide which blocks those are and what is left behind them.
-/

structure BlockReader (Item State : Type*) where
  size : Nat
  positive : 0 < size
  compress : State → List Item → State

namespace BlockReader

variable {Item State : Type*} (reader : BlockReader Item State)

/-- The state behind the last whole block, and the items that did not fill one. -/
def absorb (state : State) (items : List Item) : State × List Item :=
  if 0 < reader.size ∧ reader.size ≤ items.length then
    absorb (reader.compress state (items.take reader.size)) (items.drop reader.size)
  else (state, items)
termination_by items.length
decreasing_by
  simp only [List.length_drop]
  omega

theorem absorb_short {state : State} {items : List Item} (short : items.length < reader.size) :
    reader.absorb state items = (state, items) := by
  rw [absorb, if_neg (by omega)]

theorem absorb_long {state : State} {items : List Item} (long : reader.size ≤ items.length) :
    reader.absorb state items =
      reader.absorb (reader.compress state (items.take reader.size)) (items.drop reader.size) := by
  rw [absorb, if_pos ⟨reader.positive, long⟩]

theorem absorb_block {state : State} {block items : List Item}
    (whole : block.length = reader.size) :
    reader.absorb state (block ++ items) = reader.absorb (reader.compress state block) items := by
  rw [absorb_long reader (by rw [List.length_append]; omega), ← whole, List.take_left,
    List.drop_left]

theorem absorb_one {state : State} {block : List Item} (whole : block.length = reader.size) :
    reader.absorb state block = (reader.compress state block, []) := by
  have empty : reader.absorb (reader.compress state block) [] = (reader.compress state block, []) :=
    absorb_short reader reader.positive
  rw [← empty, ← absorb_block reader whole, List.append_nil]

/-- What was left behind goes in front of the items that come next. -/
theorem absorb_append (state : State) (items more : List Item) :
    reader.absorb state (items ++ more) =
      reader.absorb (reader.absorb state items).1 ((reader.absorb state items).2 ++ more) := by
  induction state, items using absorb.induct reader with
  | case1 state items long ih =>
      rw [absorb_long reader long.2, ← ih, absorb_long reader (by rw [List.length_append]; omega),
        List.take_append_of_le_length long.2, List.drop_append_of_le_length long.2]
  | case2 state items short =>
      have few : items.length < reader.size :=
        Nat.lt_of_not_ge fun long => short ⟨reader.positive, long⟩
      rw [absorb_short reader few]

theorem length_absorb (state : State) (items : List Item) :
    (reader.absorb state items).2.length = items.length % reader.size := by
  induction state, items using absorb.induct reader with
  | case1 state items long ih =>
      rw [absorb_long reader long.2, ih, List.length_drop, ← Nat.mod_eq_sub_mod long.2]
  | case2 state items short =>
      have few : items.length < reader.size :=
        Nat.lt_of_not_ge fun long => short ⟨reader.positive, long⟩
      rw [absorb_short reader few, Nat.mod_eq_of_lt few]

/-- The blocks may as well be counted off from the front. -/
theorem absorb_eq_foldl (state : State) (items : List Item) :
    (reader.absorb state items).1 = (List.range (items.length / reader.size)).foldl
      (fun state index =>
        reader.compress state ((items.drop (reader.size * index)).take reader.size)) state := by
  induction state, items using absorb.induct reader with
  | case1 state items long ih =>
      have counted : items.length / reader.size =
          (items.drop reader.size).length / reader.size + 1 := by
        rw [List.length_drop, Nat.div_eq_sub_div reader.positive long.2]
      have later (index : Nat) : reader.size * (index + 1) = reader.size + reader.size * index := by
        rw [Nat.mul_succ, Nat.add_comm]
      rw [absorb_long reader long.2, ih, counted, List.range_succ_eq_map, List.foldl_cons,
        List.foldl_map]
      simp only [Nat.mul_zero, List.drop_zero, List.drop_drop, later]
  | case2 state items short =>
      have few : items.length < reader.size :=
        Nat.lt_of_not_ge fun long => short ⟨reader.positive, long⟩
      rw [absorb_short reader few, Nat.div_eq_of_lt few]
      rfl

end BlockReader

/-- A loop over `0 ≤ j < count` keeps what each of its turns keeps. -/
theorem foldl_finRange_induction {State : Type*} (holds : Nat → State → Prop) {count : Nat}
    {body : State → Fin count → State} {start : State} (first : holds 0 start)
    (turn : ∀ j state, holds j.val state → holds (j.val + 1) (body state j)) :
    holds count ((List.finRange count).foldl body start) := by
  induction count with
  | zero => simpa using first
  | succ count ih =>
      rw [List.finRange_succ_last, List.foldl_append, List.foldl_map]
      exact turn (Fin.last count) _ (ih fun j state before => turn j.castSucc state before)

/-- One more item meets the next of a longer list. -/
theorem zip_concat {Left Right : Type*} {left : List Left} {right : List Right}
    (fewer : right.length < left.length) (default : Left) (item : Right) :
    left.zip (right ++ [item]) = left.zip right ++ [(left.getD right.length default, item)] := by
  induction right generalizing left with
  | nil =>
      cases left with
      | nil => cases fewer
      | cons first rest => simp
  | cons second others ih =>
      cases left with
      | nil => cases fewer
      | cons first rest => simpa using ih (Nat.lt_of_succ_lt_succ fewer)

end Presence.Data
