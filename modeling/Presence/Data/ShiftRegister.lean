import Mathlib.Data.List.Basic
import Mathlib.Logic.Function.Iterate

namespace Presence.Data.ShiftRegister

/-! # Shift registers with feedback

A register is fed bits at its low end, and what falls out there comes back at the high
end.  All of it is linear in exclusive or, so that an error in the bits is seen in the
register no matter what the bits are.
-/

variable {w : Nat}

/-- The bits as a word, the first one lowest. -/
def ofBits (bits : List Bool) : BitVec w := (BitVec.ofBoolListLE bits).setWidth w

/-- A bit falls out; if it was set, the feedback comes in. -/
def shift (feedback x : BitVec w) : BitVec w :=
  (x >>> 1) ^^^ if x.getLsbD 0 then feedback else 0

def feed (feedback x : BitVec w) (bits : List Bool) : BitVec w :=
  bits.foldl (fun x bit => shift feedback (x ^^^ ofBits [bit])) x

/-! ## Words -/

@[simp] theorem getLsbD_ofBits (bits : List Bool) (place : Nat) :
    (ofBits bits : BitVec w).getLsbD place = (decide (place < w) && bits.getD place false) := by
  rw [ofBits, BitVec.getLsbD_setWidth, BitVec.getLsbD_ofBoolListLE]

theorem ofBits_cons_xor (bit : Bool) (bits : List Bool) (short : bits.length < w) :
    (ofBits (bit :: bits) ^^^ ofBits [bit] : BitVec w) >>> 1 = ofBits bits := by
  refine BitVec.eq_of_getLsbD_eq fun place small => ?_
  simp only [BitVec.getLsbD_ushiftRight, BitVec.getLsbD_xor, getLsbD_ofBits, Nat.add_comm 1,
    List.getD_cons_succ, List.getD_nil, small, decide_true, Bool.true_and, Bool.and_false,
    Bool.xor_false]
  by_cases inside : place + 1 < w
  · simp [inside]
  · have beyond : bits.length ≤ place := by omega
    simp [inside, List.getElem?_eq_none beyond]

theorem ofBits_ne_zero {bits : List Bool} (short : bits.length ≤ w) (nonzero : true ∈ bits) :
    (ofBits bits : BitVec w) ≠ 0#w := by
  obtain ⟨place, inside, set⟩ := List.getElem_of_mem nonzero
  have fits : place < w := Nat.lt_of_lt_of_le inside short
  intro zero
  have clear : (ofBits bits : BitVec w).getLsbD place = false := by rw [zero, BitVec.getLsbD_zero]
  rw [getLsbD_ofBits, List.getD_eq_getElem?_getD, List.getElem?_eq_getElem inside, set,
    decide_eq_true fits] at clear
  cases clear

@[simp] theorem ofBits_nil : (ofBits [] : BitVec w) = 0#w :=
  BitVec.eq_of_getLsbD_eq fun place small => by simp

@[simp] theorem ofBits_false : (ofBits [false] : BitVec w) = 0#w := by
  refine BitVec.eq_of_getLsbD_eq fun place small => ?_
  cases place <;> simp

theorem ofBits_bit_xor (bit flip : Bool) :
    (ofBits [bit ^^ flip] : BitVec w) = ofBits [bit] ^^^ ofBits [flip] := by
  refine BitVec.eq_of_getLsbD_eq fun place small => ?_
  simp only [BitVec.getLsbD_xor, getLsbD_ofBits, small]
  cases place <;> simp

/-! ## One shift -/

section Shift

variable (feedback : BitVec w)

@[simp] theorem shift_zero : shift feedback 0#w = 0#w := by simp [shift]

theorem shift_xor (x y : BitVec w) :
    shift feedback (x ^^^ y) = shift feedback x ^^^ shift feedback y := by
  simp only [shift, BitVec.ushiftRight_xor_distrib, BitVec.getLsbD_xor]
  cases x.getLsbD 0 <;> cases y.getLsbD 0 <;> simp [BitVec.xor_assoc, BitVec.xor_comm feedback]

/-- Without a bit to fall out it only shifts. -/
theorem shift_of_even {x : BitVec w} (even : x.getLsbD 0 = false) :
    shift feedback x = x >>> 1 := by
  simp [shift, even]

variable {feedback}

/-- The high end tells whether a bit fell out. -/
theorem msb_shift (top : feedback.msb = true) (x : BitVec w) :
    (shift feedback x).msb = x.getLsbD 0 := by
  rw [shift, BitVec.msb_xor, BitVec.msb_ushiftRight]
  cases x.getLsbD 0 <;> simp [top]

theorem eq_zero_of_shift (top : feedback.msb = true) {x : BitVec w}
    (zero : shift feedback x = 0#w) : x = 0#w := by
  have even : x.getLsbD 0 = false := by
    rw [← msb_shift top, zero]
    simp
  rw [shift_of_even feedback even] at zero
  refine BitVec.eq_of_getLsbD_eq fun place small => ?_
  cases place with
  | zero => simpa using even
  | succ place =>
      have clear := congrArg (BitVec.getLsbD · place) zero
      simpa [BitVec.getLsbD_ushiftRight, Nat.add_comm 1] using clear

theorem shift_injective (top : feedback.msb = true) : Function.Injective (shift feedback) := by
  intro x y same
  refine BitVec.xor_eq_zero_iff.mp (eq_zero_of_shift top ?_)
  rw [shift_xor, same, BitVec.xor_self]

theorem eq_zero_of_iterate_shift (top : feedback.msb = true) {x : BitVec w} {count : Nat}
    (zero : (shift feedback)^[count] x = 0#w) : x = 0#w := by
  refine (shift_injective top).iterate count ?_
  rw [zero, Function.iterate_fixed (shift_zero feedback)]

end Shift

/-! ## Many bits -/

section Feed

variable {feedback : BitVec w}

theorem feed_cons (x : BitVec w) (bit : Bool) (bits : List Bool) :
    feed feedback x (bit :: bits) = feed feedback (shift feedback (x ^^^ ofBits [bit])) bits := rfl

theorem feed_append (x : BitVec w) (first second : List Bool) :
    feed feedback x (first ++ second) = feed feedback (feed feedback x first) second :=
  List.foldl_append

/-- As many bits as fit are taken in at once. -/
theorem feed_word {bits : List Bool} (short : bits.length ≤ w) (x : BitVec w) :
    feed feedback x bits = (shift feedback)^[bits.length] (x ^^^ ofBits bits) := by
  induction bits generalizing x with
  | nil =>
      rw [ofBits_nil, BitVec.xor_zero]
      rfl
  | cons bit bits ih =>
      have later : bits.length < w := short
      have even : (ofBits (bit :: bits) ^^^ ofBits [bit] : BitVec w).getLsbD 0 = false := by simp
      -- the later bits come down from the places in which they wait
      have waiting : shift feedback (ofBits (bit :: bits) ^^^ ofBits [bit]) = ofBits bits := by
        rw [shift_of_even feedback even, ofBits_cons_xor bit bits later]
      have whole : x ^^^ ofBits [bit] ^^^ (ofBits (bit :: bits) ^^^ ofBits [bit]) =
          x ^^^ ofBits (bit :: bits) ^^^ (ofBits [bit] ^^^ ofBits [bit]) := by
        ac_rfl
      rw [feed_cons, ih (Nat.le_of_lt later), ← waiting, ← shift_xor, whole, BitVec.xor_self,
        BitVec.xor_zero]
      rfl

theorem feed_xor {bits error : List Bool} (same : bits.length = error.length) (x y : BitVec w) :
    feed feedback (x ^^^ y) (List.zipWith (· ^^ ·) bits error) =
      feed feedback x bits ^^^ feed feedback y error := by
  induction bits generalizing error x y with
  | nil =>
      obtain rfl := List.length_eq_zero_iff.mp same.symm
      rfl
  | cons bit bits ih =>
      cases error with
      | nil => cases same
      | cons flip error =>
          have parts : x ^^^ y ^^^ (ofBits [bit] ^^^ ofBits [flip]) =
              x ^^^ ofBits [bit] ^^^ (y ^^^ ofBits [flip]) := by
            ac_rfl
          rw [List.zipWith_cons_cons, feed_cons, feed_cons, feed_cons, ofBits_bit_xor, parts,
            shift_xor]
          exact ih (Nat.succ.inj same) _ _

theorem feed_replicate_false (x : BitVec w) (count : Nat) :
    feed feedback x (List.replicate count false) = (shift feedback)^[count] x := by
  induction count generalizing x with
  | zero => rfl
  | succ count ih =>
      rw [List.replicate_succ, feed_cons, ofBits_false, BitVec.xor_zero, ih]
      rfl

/-- A burst of no more bits than the register holds is left in it, and no shift drives it
out. -/
theorem feed_burst (top : feedback.msb = true) {burst : List Bool} (short : burst.length ≤ w)
    (nonzero : true ∈ burst) (before after : Nat) :
    feed feedback 0#w (List.replicate before false ++ burst ++ List.replicate after false) ≠
      0#w := by
  rw [feed_append, feed_append, feed_replicate_false, feed_replicate_false,
    Function.iterate_fixed (shift_zero feedback), feed_word short, BitVec.zero_xor]
  intro zero
  have left := eq_zero_of_iterate_shift top (eq_zero_of_iterate_shift top zero)
  exact ofBits_ne_zero short nonzero left

end Feed

/-! ## Bursts -/

/-- The set bits span at most so many positions. -/
def Spans (width : Nat) (bits : List Bool) : Prop :=
  ∃ first, ∀ position, bits[position]? = some true → first ≤ position ∧ position < first + width

theorem spans_of_clear {width : Nat} {bits : List Bool} (first : Nat)
    (clear : true ∉ bits.take first ++ bits.drop (first + width)) : Spans width bits := by
  rw [List.mem_append, not_or] at clear
  refine ⟨first, fun position set => ⟨?_, ?_⟩⟩
  · by_contra early
    have kept : (bits.take first)[position]? = some true := by
      rwa [List.getElem?_take_of_lt (Nat.lt_of_not_le early)]
    exact clear.1 (List.mem_of_getElem? kept)
  · by_contra late
    have kept : (bits.drop (first + width))[position - (first + width)]? = some true := by
      rwa [List.getElem?_drop, Nat.add_sub_of_le (Nat.le_of_not_lt late)]
    exact clear.2 (List.mem_of_getElem? kept)

theorem eq_replicate_false {bits : List Bool}
    (clear : ∀ position : Nat, bits[position]? ≠ some true) :
    bits = List.replicate bits.length false := by
  refine List.eq_replicate_iff.mpr ⟨rfl, fun bit member => ?_⟩
  obtain ⟨position, found⟩ := List.getElem?_of_mem member
  by_contra set
  exact clear position (eq_true_of_ne_false set ▸ found)

theorem Spans.exists_burst {width : Nat} {bits : List Bool} (spans : Spans width bits) :
    ∃ before burst after, burst.length ≤ width ∧
      bits = List.replicate before false ++ burst ++ List.replicate after false := by
  obtain ⟨first, within⟩ := spans
  have front : bits.take first = List.replicate (bits.take first).length false := by
    refine eq_replicate_false fun position set => ?_
    by_cases early : position < first
    · rw [List.getElem?_take_of_lt early] at set
      exact absurd (within position set).1 (Nat.not_le_of_lt early)
    · rw [List.getElem?_take_eq_none (Nat.le_of_not_lt early)] at set
      cases set
  have back : bits.drop (first + width) =
      List.replicate (bits.drop (first + width)).length false := by
    refine eq_replicate_false fun position set => ?_
    rw [List.getElem?_drop] at set
    exact absurd (within _ set).2 (Nat.not_lt_of_le (Nat.le_add_right ..))
  refine ⟨(bits.take first).length, (bits.drop first).take width,
    (bits.drop (first + width)).length, List.length_take_le .., ?_⟩
  rw [← front, ← back, List.append_assoc, ← List.drop_drop, List.take_append_drop,
    List.take_append_drop]

/-- A short burst is seen in the register, wherever it is. -/
theorem feed_ne_zero {feedback : BitVec w} (top : feedback.msb = true) {error : List Bool}
    (nonzero : true ∈ error) (spans : Spans w error) : feed feedback 0#w error ≠ 0#w := by
  obtain ⟨before, burst, after, short, rfl⟩ := spans.exists_burst
  refine feed_burst top short ?_ before after
  simpa using nonzero

end Presence.Data.ShiftRegister
