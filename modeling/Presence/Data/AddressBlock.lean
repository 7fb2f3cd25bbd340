import Mathlib.Algebra.Group.Nat.Defs
import Presence.Data.Bytes

namespace Presence.Data

/-! # Blocks of addresses

An address is a number of some width, and a block is what its leading bits leave free.
-/

/-- The addresses whose bits above the lowest `free` are `lead`. -/
structure Block where
  lead : Nat
  free : Nat
deriving DecidableEq, Repr

namespace Block

def contains (block : Block) (address : Nat) : Bool := address / 2 ^ block.free == block.lead

theorem contains_iff {block : Block} {address : Nat} :
    block.contains address = true ↔ address / 2 ^ block.free = block.lead :=
  beq_iff_eq

/-- One block inside another. -/
def within (inner outer : Block) : Bool :=
  inner.free ≤ outer.free && inner.lead / 2 ^ (outer.free - inner.free) == outer.lead

theorem contains_of_within {inner outer : Block} (inside : inner.within outer = true) {address : Nat}
    (member : inner.contains address = true) : outer.contains address = true := by
  rw [within, Bool.and_eq_true, decide_eq_true_eq, beq_iff_eq] at inside
  rw [contains_iff] at member ⊢
  rw [← inside.2, ← member, Nat.div_div_eq_div_mul, ← Nat.pow_add, Nat.add_sub_cancel' inside.1]

/-- Blocks that share an address are nested. -/
theorem within_or_within {first second : Block} {address : Nat}
    (here : first.contains address = true) (there : second.contains address = true) :
    first.within second = true ∨ second.within first = true := by
  have nested : ∀ inner outer : Block, inner.contains address = true →
      outer.contains address = true → inner.free ≤ outer.free → inner.within outer = true := by
    intro inner outer small large shorter
    rw [contains_iff] at small large
    rw [within, Bool.and_eq_true, decide_eq_true_eq, beq_iff_eq]
    refine ⟨shorter, ?_⟩
    rw [← small, ← large, Nat.div_div_eq_div_mul, ← Nat.pow_add, Nat.add_sub_cancel' shorter]
  rcases Nat.le_total first.free second.free with shorter | shorter
  · exact Or.inl (nested first second here there shorter)
  · exact Or.inr (nested second first there here shorter)

/-- Only the bytes that the lead reaches into count. -/
theorem contains_numberOf {block : Block} (first : List UInt8) {second : List UInt8} (spare : Nat)
    (free : block.free = 8 * second.length + spare) :
    block.contains (numberOf (first ++ second)) = true ↔ numberOf first / 2 ^ spare = block.lead := by
  have width : 256 ^ second.length = 2 ^ (8 * second.length) := by rw [Nat.pow_mul]
  rw [contains_iff, free, Nat.pow_add, ← Nat.div_div_eq_div_mul, ← width, numberOf_append_div]

theorem contains_first {block : Block} (lead : List UInt8) {first : UInt8} {rest : List UInt8}
    (spare : Nat) (free : block.free = 8 * rest.length + spare) :
    block.contains (numberOf (lead ++ first :: rest)) = true ↔
      (numberOf lead * 256 + first.toNat) / 2 ^ spare = block.lead := by
  rw [← numberOf_concat, ← contains_numberOf (lead ++ [first]) spare free, List.append_assoc,
    List.singleton_append]

theorem contains_second {block : Block} (lead : List UInt8) {first second : UInt8} {rest : List UInt8}
    (spare : Nat) (free : block.free = 8 * rest.length + spare) :
    block.contains (numberOf (lead ++ first :: second :: rest)) = true ↔
      ((numberOf lead * 256 + first.toNat) * 256 + second.toNat) / 2 ^ spare = block.lead := by
  rw [← numberOf_concat lead first, ← contains_first (lead ++ [first]) spare free, List.append_assoc,
    List.singleton_append]

/-- One address alone. -/
theorem contains_whole {block : Block} (free : block.free = 0) {address : Nat} :
    block.contains address = true ↔ address = block.lead := by
  rw [contains_iff, free, Nat.pow_zero, Nat.div_one]

end Block

end Presence.Data
