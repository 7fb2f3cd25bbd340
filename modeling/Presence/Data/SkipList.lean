import Mathlib.Algebra.BigOperators.Intervals
import Mathlib.NumberTheory.Padics.PadicVal.Basic

namespace Presence.Data.SkipList

/-! # Files laid out as a skip list

Each block but the first begins with a pointer back for every power of two that divides
its index.
-/

/-- The pointers that a block begins with. -/
def pointers (block : Nat) : Nat := if block = 0 then 0 else padicValNat 2 block + 1

def popcount (count : Nat) : Nat := (Nat.digits 2 count).sum

theorem popcount_le (count : Nat) : popcount count ≤ count := Nat.digit_sum_le 2 count

theorem valuation_factorial (count : Nat) :
    padicValNat 2 count.factorial + popcount count = count := by
  have legendre := sub_one_mul_padicValNat_factorial (p := 2) count
  rw [Nat.add_one_sub_one, one_mul] at legendre
  rw [legendre]
  exact Nat.sub_add_cancel (popcount_le count)

/-- The pointers of all blocks but the first, counted by the factorial of their number. -/
theorem sum_pointers_valuation (count : Nat) :
    ∑ block ∈ Finset.range (count + 1), pointers block =
      padicValNat 2 count.factorial + count := by
  induction count with
  | zero => simp [pointers]
  | succ count ih =>
    rw [Finset.sum_range_succ, ih, Nat.factorial_succ,
      padicValNat.mul count.succ_ne_zero count.factorial_ne_zero, pointers,
      if_neg count.succ_ne_zero, Nat.succ_eq_add_one]
    omega

theorem sum_pointers (count : Nat) :
    ∑ block ∈ Finset.range (count + 1), pointers block + popcount count = 2 * count := by
  have valuation := valuation_factorial count
  rw [sum_pointers_valuation]
  omega

/-- Fewer than two pointers for each block. -/
theorem sum_pointers_le (blocks : Nat) :
    ∑ block ∈ Finset.range blocks, pointers block ≤ 2 * blocks := by
  cases blocks with
  | zero => rfl
  | succ count =>
    have total := sum_pointers count
    omega

section Layout

variable (blockSize pointerSize : Nat)

/-- The bytes that so many blocks have left for the file. -/
def capacity (blocks : Nat) : Nat :=
  blocks * blockSize - pointerSize * ∑ block ∈ Finset.range blocks, pointers block

/-- The first number of blocks from `start` on that holds so many bytes. -/
def search (bytes : Nat) : Nat → Nat → Nat
  | 0, start => start
  | fuel + 1, start =>
    if capacity blockSize pointerSize start < bytes then search bytes fuel (start + 1) else start

/-- The blocks of a file. -/
def blocksFor (bytes : Nat) : Nat :=
  search blockSize pointerSize bytes bytes (bytes / blockSize)

variable {blockSize pointerSize}

theorem capacity_le (blocks : Nat) : capacity blockSize pointerSize blocks ≤ blocks * blockSize :=
  Nat.sub_le _ _

/-- The pointers take less than two pointers' room from each block. -/
theorem le_capacity (blocks : Nat) :
    blocks * (blockSize - 2 * pointerSize) ≤ capacity blockSize pointerSize blocks := by
  have pointed := Nat.mul_le_mul_left pointerSize (sum_pointers_le blocks)
  have regrouped : pointerSize * (2 * blocks) = blocks * (2 * pointerSize) := by ring
  rw [capacity, Nat.mul_sub]
  omega

theorem search_holds {bytes : Nat} (fuel start : Nat)
    (enough : bytes ≤ capacity blockSize pointerSize (start + fuel)) :
    bytes ≤ capacity blockSize pointerSize (search blockSize pointerSize bytes fuel start) := by
  induction fuel generalizing start with
  | zero => exact enough
  | succ fuel ih =>
    rw [search]
    split
    next small => exact ih (start + 1) (by rwa [Nat.add_assoc, Nat.add_comm 1])
    next large => exact Nat.not_lt.mp large

theorem search_le {bytes blocks : Nat} (fuel start : Nat) (order : start ≤ blocks)
    (holds : bytes ≤ capacity blockSize pointerSize blocks) :
    search blockSize pointerSize bytes fuel start ≤ blocks := by
  induction fuel generalizing start with
  | zero => exact order
  | succ fuel ih =>
    rw [search]
    split
    next small =>
      refine ih (start + 1) (Nat.succ_le_of_lt (Nat.lt_of_le_of_ne order ?_))
      rintro rfl
      exact absurd holds (Nat.not_le.mpr small)
    next large => exact order

theorem le_search {bytes : Nat} (fuel start : Nat) :
    start ≤ search blockSize pointerSize bytes fuel start := by
  induction fuel generalizing start with
  | zero => exact le_rfl
  | succ fuel ih =>
    rw [search]
    split
    next small => exact start.le_succ.trans (ih (start + 1))
    next large => exact le_rfl

theorem div_le_blocksFor (bytes : Nat) :
    bytes / blockSize ≤ blocksFor blockSize pointerSize bytes :=
  le_search bytes _

theorem blocksFor_le {bytes blocks : Nat} (holds : bytes ≤ capacity blockSize pointerSize blocks) :
    blocksFor blockSize pointerSize bytes ≤ blocks :=
  search_le bytes _ (Nat.div_le_of_le_mul (by
    rw [Nat.mul_comm]
    exact holds.trans (capacity_le blocks))) holds

/-- A file takes as few blocks as hold it. -/
theorem blocksFor_isLeast (wide : 2 * pointerSize < blockSize) (bytes : Nat) :
    IsLeast {blocks | bytes ≤ capacity blockSize pointerSize blocks}
      (blocksFor blockSize pointerSize bytes) := by
  refine ⟨search_holds bytes _ ?_, fun blocks => blocksFor_le⟩
  calc bytes ≤ bytes / blockSize + bytes := Nat.le_add_left _ _
    _ ≤ (bytes / blockSize + bytes) * (blockSize - 2 * pointerSize) :=
      Nat.le_mul_of_pos_right _ (by omega)
    _ ≤ capacity blockSize pointerSize (bytes / blockSize + bytes) := le_capacity _

end Layout

end Presence.Data.SkipList
